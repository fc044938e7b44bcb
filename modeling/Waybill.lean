import Waybill.CommandLine.Arguments
import Waybill.CommandLine.Report
import Waybill.CommandLine.Request
import Waybill.Cost
import Waybill.Decimal.Numeral
import Waybill.Decimal.Shortest
import Waybill.Decimal.Style
import Waybill.Disk
import Waybill.Document
import Waybill.Edge
import Waybill.Flow
import Waybill.Json.Codec
import Waybill.Json.Decode
import Waybill.Json.Draft
import Waybill.Json.Token
import Waybill.Json.Value
import Waybill.KeyMap
import Waybill.Layered.Request
import Waybill.Layered.Rows
import Waybill.Main
import Waybill.Manifest
import Waybill.Network.Basic
import Waybill.Network.Slots
import Waybill.Plan
import Waybill.PlanError
import Waybill.Planner
import Waybill.Policy.Basic
import Waybill.Policy.Declaration
import Waybill.Proofs.Addition
import Waybill.Proofs.Addresses
import Waybill.Proofs.Adjacency
import Waybill.Proofs.Alike
import Waybill.Proofs.Ascii
import Waybill.Proofs.Assembly
import Waybill.Proofs.Authorities
import Waybill.Proofs.Binding
import Waybill.Proofs.ByteOrder
import Waybill.Proofs.Characters
import Waybill.Proofs.Codecs
import Waybill.Proofs.CommaLists
import Waybill.Proofs.Connections
import Waybill.Proofs.Contents
import Waybill.Proofs.Cost
import Waybill.Proofs.Cutting
import Waybill.Proofs.Declared
import Waybill.Proofs.Documents
import Waybill.Proofs.Drafts
import Waybill.Proofs.EncodedPaths
import Waybill.Proofs.Encoding
import Waybill.Proofs.Exclusion
import Waybill.Proofs.FlowManifests
import Waybill.Proofs.GivenPaths
import Waybill.Proofs.History
import Waybill.Proofs.Hosts
import Waybill.Proofs.JobNames
import Waybill.Proofs.JobUrls
import Waybill.Proofs.Layers
import Waybill.Proofs.Layout
import Waybill.Proofs.LeadingBack
import Waybill.Proofs.Ledger
import Waybill.Proofs.Lines
import Waybill.Proofs.Magnitude
import Waybill.Proofs.Manifests
import Waybill.Proofs.NumberEnds
import Waybill.Proofs.Offers
import Waybill.Proofs.Openness
import Waybill.Proofs.Overlays
import Waybill.Proofs.PlainPaths
import Waybill.Proofs.Queue
import Waybill.Proofs.Quotation
import Waybill.Proofs.Removal
import Waybill.Proofs.Renaming
import Waybill.Proofs.Reports
import Waybill.Proofs.Representation
import Waybill.Proofs.Results
import Waybill.Proofs.Retuning
import Waybill.Proofs.Reweighing
import Waybill.Proofs.Rounding
import Waybill.Proofs.Rows
import Waybill.Proofs.Search
import Waybill.Proofs.Searched
import Waybill.Proofs.Shortest
import Waybill.Proofs.Slots
import Waybill.Proofs.Soundness
import Waybill.Proofs.Stages
import Waybill.Proofs.Strictness
import Waybill.Proofs.Weighing
import Waybill.Proofs.WholeCatalog
import Waybill.Proofs.Withholding
import Waybill.Route.Basic
import Waybill.Route.Search
import Waybill.Setting
import Waybill.Template
import Waybill.Text.CommaList
import Waybill.Text.Quoted
import Waybill.Topology
import Waybill.Url.Basic
import Waybill.Url.Host
import Waybill.Url.Parser
import Waybill.Url.Path
import Waybill.Url.Percent
