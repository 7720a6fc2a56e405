import StubResolver.Name.Presentation
import StubResolver.Name.Reverse
import StubResolver.Proofs.Cache.History
import StubResolver.Proofs.Cache.Key
import StubResolver.Proofs.Lookup.Decision
import StubResolver.Simulation.LocalServer
import StubResolver.Proofs.Name.Placement
import StubResolver.Proofs.Record.Advancing
import StubResolver.Proofs.Message.Framing
import StubResolver.Proofs.Lookup.Calls
import StubResolver.Proofs.Lookup.Course
import StubResolver.Proofs.Lookup.Fallback
import StubResolver.Proofs.Message.RoundTrip
import StubResolver.Proofs.Name.Compression
import StubResolver.Proofs.Lookup.Cancellation
import StubResolver.Proofs.Lookup.CacheUse
import StubResolver.Proofs.Lookup.Sharing
import StubResolver.Proofs.Lookup.Belonging
import StubResolver.Proofs.Transport.TcpExchange
import StubResolver.Proofs.Transport.SharedPools
import StubResolver.Proofs.Lookup.Trail
import StubResolver.Proofs.Lookup.Throwing
import StubResolver.Proofs.Cache.Interleaving
import StubResolver.Proofs.Cache.Sweeping
import StubResolver.Proofs.Transport.Unpooled
import StubResolver.Proofs.Name.Lengths
import StubResolver.Proofs.Name.Spelling
import StubResolver.Proofs.Name.Rereading
import StubResolver.Proofs.Name.HostName
import StubResolver.Proofs.Name.Hashing
import StubResolver.Proofs.Wire.Failing
import StubResolver.Proofs.Record.CharacterStrings
import StubResolver.Proofs.Record.InPlace
import StubResolver.Proofs.Record.Consumption
import StubResolver.Proofs.Cache.MinimumTtl
import StubResolver.Proofs.Record.QuotedStrings
import StubResolver.Proofs.Message.Composing
import StubResolver.Proofs.Message.Trailing
import StubResolver.Proofs.Name.ReverseLookup
import StubResolver.Proofs.Transport.UdpExchange
import StubResolver.Proofs.Message.Positions
import StubResolver.Proofs.Message.HeaderFields
