import Bytesmith.Main
import Bytesmith.Proofs.Arrivals
import Bytesmith.Proofs.Coercions
import Bytesmith.Proofs.Contents
import Bytesmith.Proofs.Corruption
import Bytesmith.Proofs.Depth
import Bytesmith.Proofs.Description
import Bytesmith.Proofs.Indentation
import Bytesmith.Proofs.Interleaving
import Bytesmith.Proofs.Interning
import Bytesmith.Proofs.LocalNames
import Bytesmith.Proofs.Overloads
import Bytesmith.Proofs.Persistence
import Bytesmith.Proofs.PropertyLaws
import Bytesmith.Proofs.Sealing
import Bytesmith.Proofs.Selection
import Bytesmith.Proofs.Series
import Bytesmith.Proofs.Slots
import Bytesmith.Proofs.StaticCalls
import Bytesmith.Proofs.Tiling
