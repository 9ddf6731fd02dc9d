import Anon.BigEndian
import Anon.Lib.Except

/-!
# Replies of memcached

What `mcd_cluster::get` and `mcd_cluster::set` make of the reply, in the callback that has written
the request to a connected pipe. The vector has 24 bytes at first, and after an attempt that failed
the size which that attempt gave it.

The model stops at the first byte or range outside of what was received or of the vector, and at a
length that is not the sum or difference which it stands for.

* `read`, `readLoop`, `readReply`: how the reply comes in.
* `statusCheck`, `setChecks`, `getChecks`: what is looked at then.
* `setReply`, `getReply`: the two callbacks.
-/

namespace Anon.Mcdc

/-- How a callback ends without a result. -/
inductive Failure
  /-- A `fiber_io_error`. -/
  | io (what : Bytes)
  /-- A `std::runtime_error`. -/
  | runtime (what : Bytes)
  /-- `do_error`, which logs a text and throws a `std::system_error`. -/
  | system (log : Bytes)
  /-- A byte or a range outside of the bytes that were received or of the vector. -/
  | outOfBounds
  /-- A length that underflows or wraps. -/
  | wraps
  deriving DecidableEq

/-- The callback throws. -/
def Failure.thrown : Failure → Bool
  | .io _ => true
  | .runtime _ => true
  | .system _ => true
  | .outOfBounds => false
  | .wraps => false

/-- A value that is looked up in the bytes that were received. -/
def inside {α : Type} : Option α → Except Failure α
  | some a => .ok a
  | none => .error .outOfBounds

/-! ## Reading -/

/-- `pipe->read(buf, n)`, where the bytes of the server arrive in chunks. -/
def read : List Bytes → ℕ → Option (Bytes × List Bytes)
  | [], _ => none
  | c :: chunks, n =>
    if c = [] then read chunks n
    else if c.length ≤ n then some (c, chunks)
    else some (c.take n, c.drop n :: chunks)

theorem read_eq_some {chunks rest : List Bytes} {n : ℕ} {bytes : Bytes}
    (h : read chunks n = some (bytes, rest)) :
    bytes.length ≤ n ∧ (0 < n → 0 < bytes.length) ∧ chunks.flatten = bytes ++ rest.flatten := by
  induction chunks with
  | nil => exact absurd h (by simp [read])
  | cons c chunks ih =>
    rw [read] at h
    split at h
    · next hnil => simpa [hnil] using ih h
    · next hne =>
      have hpos := List.length_pos_of_ne_nil hne
      split at h
      · next hle =>
        obtain ⟨rfl, rfl⟩ := Prod.mk.inj (Option.some.inj h)
        exact ⟨hle, fun _ => hpos, rfl⟩
      · next hlt =>
        obtain ⟨rfl, rfl⟩ := Prod.mk.inj (Option.some.inj h)
        rw [List.length_take, List.flatten_cons, List.flatten_cons, ← List.append_assoc,
          List.take_append_drop]
        exact ⟨by omega, by omega, rfl⟩

/-- `while (bytes_read < total) bytes_read += pipe->read(&reply[bytes_read], total - bytes_read);`
for a vector of `size` bytes. `bytes_read` is an `int`, and `total` unsigned in the second loop; in
the first one, where both are `int`s, `bytes_read` is never negative. -/
def readLoop (size total : ℕ) (reply : Bytes) (bytesRead : ℤ) (chunks : List Bytes) :
    Except Failure (Bytes × ℤ × List Bytes) :=
  let unsigned := (bytesRead % 2 ^ 32).toNat
  if unsigned < total then
    if bytesRead < 0 ∨ (size : ℤ) < bytesRead + (total - unsigned : ℕ) then .error .outOfBounds
    else
      match _h : read chunks (total - unsigned) with
      | none => .error (.io (ascii "other end probably closed"))
      | some (bytes, chunks) =>
        readLoop size total (reply ++ bytes) (Int.bmod (bytesRead + bytes.length) (2 ^ 32)) chunks
  else .ok (reply, bytesRead, chunks)
termination_by chunks.flatten.length
decreasing_by
  obtain ⟨_, hpos, hflatten⟩ := read_eq_some _h
  rw [hflatten, List.length_append]
  have := hpos (by omega)
  omega

/-- The header, and the body that it announces. -/
def readReply (size : ℕ) (chunks : List Bytes) : Except Failure Bytes := do
  let (reply, bytesRead, chunks) ← readLoop size 24 [] 0 chunks
  let bodySize ← inside (getBeUint32 reply 8)
  if bodySize > 0 then
    failIf (2 ^ 32 ≤ 24 + bodySize) .wraps
    let (reply, _, _) ← readLoop (24 + bodySize) (24 + bodySize) reply bytesRead chunks
    return reply
  else
    return reply

/-! ## Looking at it -/

/-- `mcd_cluster::status_check` -/
def statusCheck (status : ℕ) : Except Failure Unit :=
  let error (err : Bytes) := .error (.runtime (ascii "memcached error: " ++ err))
  match status with
  | 0x0000 => .ok ()
  | 0x0001 => error (ascii "Key not found")
  | 0x0002 => error (ascii "Key exists")
  | 0x0003 => error (ascii "Value too large")
  | 0x0004 => error (ascii "Invalid arguments")
  | 0x0005 => error (ascii "Item not stored")
  | 0x0006 => error (ascii "Incr/Decr on non-numeric value.")
  | 0x0007 => error (ascii "The vbucket belongs to another server")
  | 0x0008 => error (ascii "Authentication error")
  | 0x0009 => error (ascii "Authentication continue")
  | 0x0081 => error (ascii "Unknown command")
  | 0x0082 => error (ascii "Out of memory")
  | 0x0083 => error (ascii "Not supported")
  | 0x0084 => error (ascii "Internal error")
  | 0x0085 => .error (.io (ascii "Busy"))
  | 0x0086 => .error (.io (ascii "Temporary failure"))
  | _ => error (ascii "unknown status")

/-- `(int)*((uint32_t *)&reply[i])`, in the byte order of the host. -/
def hostInt (reply : Bytes) (i : ℕ) : Option ℤ := do
  let b0 ← reply[i]?
  let b1 ← reply[i + 1]?
  let b2 ← reply[i + 2]?
  let b3 ← reply[i + 3]?
  return Int.bmod (b0.toNat + 2 ^ 8 * b1.toNat + 2 ^ 16 * b2.toNat + 2 ^ 24 * b3.toNat) (2 ^ 32)

/-- The bytes of a number in a message. -/
def shown (n : ℤ) : Bytes := ascii (toString n)

/-- The first checks of both callbacks. -/
def headChecks (reply : Bytes) : Except Failure Unit := do
  let magic ← inside reply[0]?
  failIf (magic ≠ 0x81) (.system (ascii "invalid memcached reply, magic byte was: " ++
    shown magic.toNat ++ ascii " instead of 129"))
  statusCheck (← inside (getBeUint16 reply 6))

/-- The data type. -/
def dataTypeCheck (reply : Bytes) : Except Failure Unit := do
  let dataType ← inside reply[5]?
  failIf (dataType ≠ 0x00)
    (.system (ascii "invalid memcached reply, specified data type: " ++ shown dataType.toNat))

/-- The rest of the callback of `set`. -/
def setChecks (reply : Bytes) : Except Failure Unit := do
  headChecks reply
  let opcode ← inside reply[1]?
  failIf (opcode ≠ 0x01) (.system (ascii "invalid memcached reply to \"set\", opcode was: " ++
    shown opcode.toNat ++ ascii " instead of 1"))
  let keyLength ← inside (getBeUint16 reply 2)
  failIf (keyLength ≠ 0) (.system
    (ascii "invalid memcached reply to \"set\", contained a key_length of " ++ shown keyLength))
  let extras ← inside reply[4]?
  failIf (extras ≠ 0x00) (.system
    (ascii "invalid memcached reply to \"set\", contained a extra data of length: " ++
      shown extras.toNat))
  dataTypeCheck reply
  let bodyLength ← inside (getBeUint32 reply 8)
  let printed ← inside (hostInt reply 8)
  failIf (bodyLength ≠ 0) (.system
    (ascii "invalid memcached reply to \"set\", contained body length of: " ++ shown printed))

/-- The rest of the callback of `get`. -/
def getChecks (reply : Bytes) : Except Failure Bytes := do
  headChecks reply
  let opcode ← inside reply[1]?
  failIf (opcode ≠ 0x00) (.system (ascii "invalid memcached reply to \"get\", opcode was: " ++
    shown opcode.toNat ++ ascii " instead of 0"))
  let extras ← inside reply[4]?
  failIf (extras ≠ 0x04) (.system
    (ascii "invalid memcached reply to \"get\", contained a extra data of length: " ++
      shown extras.toNat ++ ascii " instead of 4"))
  dataTypeCheck reply
  let bl ← inside (getBeUint32 reply 8)
  failIf (bl < 4) .wraps
  inside (readBytes reply 28 (bl - 4))

/-- The callback of `set`, once it has written the request. -/
def setReply (size : ℕ) (chunks : List Bytes) : Except Failure Unit := do
  setChecks (← readReply size chunks)

/-- The callback of `get`, once it has written the request. -/
def getReply (size : ℕ) (chunks : List Bytes) : Except Failure Bytes := do
  getChecks (← readReply size chunks)

end Anon.Mcdc
