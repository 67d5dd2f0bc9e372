import STRos.Wire.Segmentation
import STRos.Wire.Handshake
import STRos.Wire.HeaderFormat
import STRos.Wire.HeaderSafety
import STRos.Wire.Sending
import STRos.Wire.EndOfStream
import STRos.Publish.InOrder
import STRos.Subscribe.Refresh
import STRos.Subscribe.Negotiation
import STRos.Rpc.Dispatch
import STRos.Rpc.Server
import STRos.Rpc.HeaderDecoding
import STRos.Rpc.Trees
import STRos.Rpc.Payloads
import STRos.Rpc.DocumentParser
import STRos.Rpc.Roots
import STRos.Deploy.Registration
import STRos.Deploy.Answers
import STRos.Deploy.Serving
import STRos.Deploy.Acceptance
import STRos.Dictionary.FiniteMap
import STRos.Api.Shapes
import STRos.Api.PublisherUrl
import STRos.Rpc.RequestLines
import STRos.Deploy.AcceptTimeouts
import STRos.Lists.Removal
import STRos.Lists.Tokens
import STRos.Lists.Refinement
import STRos.Config.Loading
import STRos.Publish.Atomicity
import STRos.Publish.Stopping
import STRos.Publish.Shutdown
import STRos.Utils.UrlCoding
import STRos.Utils.Extension
import STRos.Wire.SessionProgress
import STRos.Dictionary.Associations
import STRos.Subscribe.Connecting
import STRos.Rpc.CutOff
import STRos.Rpc.Trailing
import STRos.Wire.WellFormedHeader
