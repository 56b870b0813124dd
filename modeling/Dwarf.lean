import Dwarf.Bytes.View
import Dwarf.Main
import Dwarf.Proofs.Info.Nesting
import Dwarf.Proofs.Info.Navigation
import Dwarf.Proofs.Bytes.Tiling
import Dwarf.Proofs.Info.Units
import Dwarf.Proofs.Attribute.Stored
import Dwarf.Proofs.Abbrev.Declaration
import Dwarf.Proofs.Abbrev.Table
import Dwarf.Proofs.Info.Header
import Dwarf.Proofs.Info.Isolation
import Dwarf.Proofs.Info.References
import Dwarf.Proofs.Truncation
import Dwarf.Proofs.Info.Concatenation
import Dwarf.Proofs.Bytes.Placed
import Dwarf.Proofs.Elf.Image
import Dwarf.Proofs.Elf.Accepted
import Dwarf.Proofs.Machine.Reader
import Dwarf.Proofs.Machine.Attribute
import Dwarf.Proofs.Machine.Abbrev
import Dwarf.Proofs.Machine.Unit
import Dwarf.Proofs.Machine.Entry
import Dwarf.Proofs.Machine.Safety
import Dwarf.Proofs.Elf.Lookup
import Dwarf.Proofs.Bytes.Raising
import Dwarf.Proofs.Fault.Contents
import Dwarf.Proofs.Elf.Refusal
import Dwarf.Proofs.Fault.Kind
import Dwarf.Proofs.Dump.Parts
import Dwarf.Proofs.Attribute.Indirect
import Dwarf.Proofs.Info.Tokens
import Dwarf.Proofs.Info.Balance
import Dwarf.Proofs.Command.Composition
import Dwarf.Proofs.StringTable
import Dwarf.Proofs.Info.Extension
import Dwarf.Proofs.Dump.Constant
import Dwarf.Proofs.Text.Numeral
import Dwarf.Proofs.Text.Utf8
import Dwarf.Proofs.Dump.Row
import Dwarf.Proofs.Dump.Written
import Dwarf.Proofs.Dump.Lines
import Dwarf.Proofs.Bytes.LastByte
import Dwarf.Proofs.Machine.Number
import Dwarf.Proofs.Attribute.Constant
import Dwarf.Proofs.Bytes.Taken
import Dwarf.Proofs.Bytes.Metered
import Dwarf.Proofs.Work
import Dwarf.Proofs.Bytes.Session
import Dwarf.Proofs.Machine.Integer
import Dwarf.Proofs.Abbrev.Insertion
