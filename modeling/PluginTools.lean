import PluginTools.Json.Reader
import PluginTools.Json.Writer
import PluginTools.Source.Parser
import PluginTools.Text.Blank
import PluginTools.Call.Request
import PluginTools.Call.Response
import PluginTools.Call.Session
import PluginTools.CommandLine
import PluginTools.Disk
import PluginTools.Run
import PluginTools.Source.Repair
import PluginTools.Wire.Guard
import PluginTools.Proofs.InputSchema
import PluginTools.Proofs.Arrivals
import PluginTools.Proofs.Generation
import PluginTools.Proofs.Blocks
import PluginTools.Proofs.Loading
import PluginTools.Proofs.RoundTrip
import PluginTools.Proofs.Listing
import PluginTools.Proofs.Numbering
import PluginTools.Proofs.FailedRuns
import PluginTools.Proofs.Guarding
import PluginTools.Proofs.Objections
import PluginTools.Proofs.Refusals
import PluginTools.Proofs.Expansion
import PluginTools.Proofs.Validity
import PluginTools.Proofs.Delimiters
import PluginTools.Proofs.Escapes
import PluginTools.Proofs.Spellings
import PluginTools.Proofs.Trees
import PluginTools.Proofs.Replies
import PluginTools.Proofs.RecordOrder
import PluginTools.Proofs.Histories
import PluginTools.Proofs.JsonReadBack
import PluginTools.Proofs.IntegerConstants
