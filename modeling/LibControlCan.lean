import LibControlCan.Framework.System
import LibControlCan.Framework.Simulation
import LibControlCan.Framework.Progress
import LibControlCan.Framework.Machine
import LibControlCan.Framework.Memory
import LibControlCan.Framework.Lines
import LibControlCan.Framework.Bytes
import LibControlCan.Framework.Regex
import LibControlCan.Framework.Asio
import LibControlCan.Framework.Checked
import LibControlCan.Framework.OStream
import LibControlCan.Framework.LinkedList
import LibControlCan.Framework.Links
import LibControlCan.Framework.IStream
import LibControlCan.Framework.CStrings
import LibControlCan.Usbcan
import LibControlCan.Interface
import LibControlCan.HexDump
import LibControlCan.HexString
import LibControlCan.LineProcess
import LibControlCan.Receive.Model
import LibControlCan.Receive.Invariant
import LibControlCan.Receive.Call
import LibControlCan.Receive.Deadline
import LibControlCan.Receive.Client
import LibControlCan.Receive.Progress
import LibControlCan.WriteLine
import LibControlCan.Net.Request
import LibControlCan.Net.Decode
import LibControlCan.Net.Model
import LibControlCan.Net.WriteDeadline
import LibControlCan.Net.Connect
import LibControlCan.Net.Transmit
import LibControlCan.Net.Lifetime
import LibControlCan.Direct.Model
import LibControlCan.Direct.Agreement
import LibControlCan.Facade.Model
import LibControlCan.Facade.Opening
import LibControlCan.Facade.Result
import LibControlCan.Facade.Release
import LibControlCan.Agent.Session
import LibControlCan.Agent.Model
import LibControlCan.Agent.Dispatch
import LibControlCan.Agent.Delivery
import LibControlCan.Agent.Lifecycle
import LibControlCan.Agent.Tick
import LibControlCan.Agent.Progress
import LibControlCan.Eventpp.CallbackList
import LibControlCan.Eventpp.Ownership
import LibControlCan.Eventpp.EventQueue
import LibControlCan.Agent.Implementation
import LibControlCan.Agent.Refinement
import LibControlCan.Agent.Publishing
import LibControlCan.Agent.Process
import LibControlCan.Agent.Service
import LibControlCan.Agent.Simulated
import LibControlCan.Ini.Store
import LibControlCan.Ini.Parse
import LibControlCan.Ini.Save
import LibControlCan.Ini.Config
