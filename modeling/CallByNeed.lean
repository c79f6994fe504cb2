import CallByNeed.Main
import CallByNeed.Program
import CallByNeed.Proofs.Accounting
import CallByNeed.Proofs.Accumulation
import CallByNeed.Proofs.Balance
import CallByNeed.Proofs.BitCount
import CallByNeed.Proofs.BitPattern
import CallByNeed.Proofs.Bitwise
import CallByNeed.Proofs.Bridge
import CallByNeed.Proofs.Calculator
import CallByNeed.Proofs.CanonicalForm
import CallByNeed.Proofs.Containment
import CallByNeed.Proofs.Conversion
import CallByNeed.Proofs.Currying
import CallByNeed.Proofs.Denotation
import CallByNeed.Proofs.Division
import CallByNeed.Proofs.Equality
import CallByNeed.Proofs.Estimation
import CallByNeed.Proofs.Flatness
import CallByNeed.Proofs.Heap
import CallByNeed.Proofs.LongDivision
import CallByNeed.Proofs.LongQuotient
import CallByNeed.Proofs.Mailbox
import CallByNeed.Proofs.Memo
import CallByNeed.Proofs.Modification
import CallByNeed.Proofs.Multiplication
import CallByNeed.Proofs.Nearness
import CallByNeed.Proofs.Product
import CallByNeed.Proofs.Quotient
import CallByNeed.Proofs.Reading
import CallByNeed.Proofs.Rounding
import CallByNeed.Proofs.Saturation
import CallByNeed.Proofs.Sharing
import CallByNeed.Proofs.Shortening
import CallByNeed.Proofs.Significand
import CallByNeed.Proofs.Strictness
import CallByNeed.Proofs.Summation
import CallByNeed.Proofs.Truncation
import CallByNeed.Proofs.TwosComplement
import CallByNeed.Proofs.Unpacking
import CallByNeed.Proofs.Unsigned
import CallByNeed.Proofs.WireForm
import CallByNeed.Proofs.Wraparound
import CallByNeed.Proofs.Writing
