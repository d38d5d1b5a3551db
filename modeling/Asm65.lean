import Asm65.Main
import Asm65.Session
import Asm65.Proofs.Meaning
import Asm65.Proofs.Consistency
import Asm65.Proofs.Reassembly
import Asm65.Proofs.Diagnosis
import Asm65.Proofs.Disassembly
import Asm65.Proofs.Rejection
import Asm65.Proofs.Composition
import Asm65.Proofs.Relocation
import Asm65.Proofs.Renaming
import Asm65.Proofs.Formatting
import Asm65.Proofs.History
import Asm65.Proofs.FailedRun
import Asm65.Proofs.Narrowing
import Asm65.Proofs.SuccessfulRun
import Asm65.Proofs.Reading
import Asm65.Proofs.Tracing
import Asm65.Proofs.Lexemes
import Asm65.Proofs.Numerals
import Asm65.Proofs.Origin
import Asm65.Proofs.Legibility
