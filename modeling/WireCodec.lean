import WireCodec.Definition.Layout
import WireCodec.Files.Tree
import WireCodec.Main
import WireCodec.Proofs.Agreement
import WireCodec.Proofs.BitSets
import WireCodec.Proofs.Constants
import WireCodec.Proofs.Delivery
import WireCodec.Proofs.Document
import WireCodec.Proofs.Documentation
import WireCodec.Proofs.Duplicates
import WireCodec.Proofs.EnumTables
import WireCodec.Proofs.FirstDefinition
import WireCodec.Proofs.Grammar
import WireCodec.Proofs.Headers
import WireCodec.Proofs.Indentation
import WireCodec.Proofs.Lengths
import WireCodec.Proofs.Limits
import WireCodec.Proofs.Listing
import WireCodec.Proofs.Presence
import WireCodec.Proofs.Quotation
import WireCodec.Proofs.SingleFile
import WireCodec.Proofs.SnakeCase
import WireCodec.Proofs.Sound
import WireCodec.Proofs.Structs
import WireCodec.Proofs.Stuck
import WireCodec.Proofs.Tiling
import WireCodec.Proofs.Touched
import WireCodec.Proofs.TypeNames
import WireCodec.Proofs.Visibility
