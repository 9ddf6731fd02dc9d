import Anon.BigEndian
import Anon.Lib.StringBuf

/-!
# A stream buffer into a pipe

`operator<<` of `pipe_t` for a `std::streambuf`, which here is a string stream buffer. A loop of the
source is a function of the number of times that it may test its condition, and `none` says that
they were not enough.
-/

namespace Anon.Pipe

/-- The size of `buf`. -/
def sz : ℕ := 1024 * 16

/-- The stream buffer, the local `buf`, and what the pipe has been given to write. -/
structure Insertion where
  sb : StringBuf UInt8
  buf : Bytes
  written : Bytes

namespace Insertion

/-- What `sb->sgetn(&buf[0], sz)` leaves. -/
def sgetn (s : Insertion) : Insertion :=
  let chars := (s.sb.sgetn sz).1
  { s with sb := (s.sb.sgetn sz).2, buf := chars ++ s.buf.drop chars.length }

/-- `write(&buf[0], read)` -/
def write (s : Insertion) (read : ℕ) : Insertion :=
  { s with written := s.written ++ s.buf.take read }

end Insertion

/-- The inner loop. It reads `sz` characters where there are as many, also when fewer are
available: `chars` is not used. -/
def writeAvailable : ℕ → ℤ → Insertion → Option Insertion
  | 0, _, _ => none
  | fuel + 1, avail, s =>
    if avail > 0 then
      let read := (s.sb.sgetn sz).1.length
      writeAvailable fuel (avail - read) (s.sgetn.write read)
    else some s

/-- The outer loop. -/
def insertLoop : ℕ → Insertion → Option Insertion
  | 0, _ => none
  | fuel + 1, s =>
    match s.sb.sgetc.1 with
    | none => some { s with sb := s.sb.sgetc.2 }
    | some c =>
      let sb := (s.sb.sgetc.2.sputbackc c).2
      (writeAvailable fuel sb.inAvail { s with sb }).bind (insertLoop fuel)

/-- `operator<<` -/
def insertStreambuf (fuel : ℕ) (sb : StringBuf UInt8) : Option Insertion :=
  insertLoop fuel ⟨sb, List.replicate sz 0, []⟩

end Anon.Pipe
