import Av1Tiling.Config.Reading
import Av1Tiling.Proofs.Bits.Mirror
import Av1Tiling.Proofs.Bits.ShortReads
import Av1Tiling.Proofs.Decoder.Sizes
import Av1Tiling.Proofs.Field.Canonical
import Av1Tiling.Proofs.Field.RoundTrip
import Av1Tiling.Proofs.Frame.References
import Av1Tiling.Proofs.Obu.Backpatching
import Av1Tiling.Proofs.Obu.Closing
import Av1Tiling.Proofs.Obu.Header
import Av1Tiling.Proofs.Obu.Iteration
import Av1Tiling.Proofs.Obu.Nesting
import Av1Tiling.Proofs.Obu.RoundTrip
import Av1Tiling.Proofs.Packet.Faults
import Av1Tiling.Proofs.Packet.Grids
import Av1Tiling.Proofs.Packet.Loss
import Av1Tiling.Proofs.Packet.RoundTrip
import Av1Tiling.Proofs.Packet.Tiling
import Av1Tiling.Proofs.Packet.WireFormat
import Av1Tiling.Proofs.Sei.Extractor
import Av1Tiling.Proofs.Sei.Iteration
import Av1Tiling.Proofs.Tile.Partition
import Av1Tiling.Proofs.Tile.Payload
