import Switchboard.Address.Parser
import Switchboard.Address.Printer
import Switchboard.Json.Parser
import Switchboard.Json.Printer
import Switchboard.Encryption.Negotiation
import Switchboard.Sdp.Section
import Switchboard.Sdp.Direction
import Switchboard.ResourceList
import Switchboard.Room.Capabilities
import Switchboard.Room.EventJson
import Switchboard.Room.Roster
import Switchboard.Directory.Service
import Switchboard.Notifier
import Switchboard.Log
import Switchboard.Call.Defaults
import Switchboard.Settings.Loading
import Switchboard.Report.Call
import Switchboard.Report.Encryption
import Switchboard.Report.Room
import Switchboard.Report.Settings
import Switchboard.Proofs.Room.Administrator
import Switchboard.Proofs.Encryption.Answer
import Switchboard.Proofs.Directory.History
import Switchboard.Proofs.Room.Replica
import Switchboard.Proofs.Room.Tick
import Switchboard.Proofs.Room.Stage
import Switchboard.Proofs.Room.Log
import Switchboard.Proofs.Room.Refusal
import Switchboard.Proofs.Room.Life
import Switchboard.Proofs.Directory.Invitation
import Switchboard.Proofs.Directory.Refusal
import Switchboard.Proofs.Encryption.Configured
import Switchboard.Proofs.Room.Guest
import Switchboard.Proofs.Encryption.Following
import Switchboard.Proofs.Zrtp.Reordering
import Switchboard.Proofs.Encryption.Order
import Switchboard.Proofs.Encryption.Growth
import Switchboard.Proofs.Text.Entries
import Switchboard.Proofs.Srtp.Suite
import Switchboard.Proofs.Encryption.WriteBack
import Switchboard.Proofs.Address.Lookup
import Switchboard.Proofs.Address.Params
import Switchboard.Proofs.Address.Uri
import Switchboard.Proofs.Address.ReadBack
import Switchboard.Proofs.Sdp.CryptoLine
import Switchboard.Proofs.Room.Deletion
import Switchboard.Proofs.Room.Session
import Switchboard.Proofs.Directory.Isolation
import Switchboard.Proofs.Call.History
import Switchboard.Proofs.Call.Recording
import Switchboard.Proofs.Call.Comparison
import Switchboard.Proofs.Call.Profile
import Switchboard.Proofs.ResourceList
import Switchboard.Proofs.Delivery
import Switchboard.Proofs.Room.EventText
import Switchboard.Proofs.Directory.Routing
import Switchboard.Proofs.Room.Succession
import Switchboard.Proofs.Content
import Switchboard.Proofs.Markup.Prefix
import Switchboard.Proofs.ResourceList.Fault
import Switchboard.Proofs.Room.Relay
import Switchboard.Proofs.Room.Recipients
import Switchboard.Proofs.Room.Retransmission
import Switchboard.Proofs.Directory.Creation
import Switchboard.Proofs.Room.Withdrawal
import Switchboard.Proofs.Zrtp.Choice
import Switchboard.Proofs.Zrtp.Strength
import Switchboard.Proofs.Zrtp.Grammar
import Switchboard.Proofs.Text.Words
import Switchboard.Proofs.Text.Fold
import Switchboard.Proofs.Text.Bytes
import Switchboard.Proofs.Srtp.SuiteList
import Switchboard.Proofs.Srtp.Spelling
import Switchboard.Proofs.Sdp.Spelling
import Switchboard.Proofs.Sdp.Section
import Switchboard.Proofs.Call.Network
import Switchboard.Proofs.Call.Attributes
