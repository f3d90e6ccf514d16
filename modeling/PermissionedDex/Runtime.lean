import Mathlib.Data.List.Basic

/-!
# Solana and Rust primitives of the proxy

Byte buffers, public keys, the fields of `AccountInfo` and `AccountMeta` the proxy
reads, `Instruction` and `ProgramError`, and the Rust operations of the source
that can panic: indexing and slicing a `Vec` or a slice, assigning to `v[i]`,
`Option::unwrap`.  A panic aborts the program, which is not the same as returning
an `Err`: the two are kept apart as `Fault.panic` and `Fault.error`, so that
"fails with an error" and "aborts" are different statements.

Each panicking operation has its `_ok` lemma (in range: the value) and its
`_eq_error` lemma (out of range: the panic).
-/

namespace PermissionedDex

/-- `&[u8]` and `Vec<u8>`. -/
abbrev Bytes := List UInt8

/-- A 32-byte public key (`Pubkey`). -/
structure Pubkey where
  bytes : Bytes
  length_bytes : bytes.length = 32
  deriving DecidableEq, Repr

/-- The fields of `AccountInfo` the proxy reads (`lamports`, `executable` and
`rent_epoch` are never read). -/
structure AccountInfo where
  key : Pubkey
  isSigner : Bool
  isWritable : Bool
  owner : Pubkey
  data : Bytes
  deriving DecidableEq, Repr

structure AccountMeta where
  pubkey : Pubkey
  isSigner : Bool
  isWritable : Bool
  deriving DecidableEq, Repr

/-- `AccountMeta::new`: a writable account. -/
def AccountMeta.new (pubkey : Pubkey) (isSigner : Bool) : AccountMeta := ⟨pubkey, isSigner, true⟩

/-- `AccountMeta::new_readonly`. -/
def AccountMeta.newReadonly (pubkey : Pubkey) (isSigner : Bool) : AccountMeta :=
  ⟨pubkey, isSigner, false⟩

structure Instruction where
  programId : Pubkey
  accounts : List AccountMeta
  data : Bytes
  deriving DecidableEq, Repr

/-- The `ProgramError` variants the proxy can return. -/
inductive ProgramError where
  | custom (code : UInt32)
  | notEnoughAccountKeys
  | missingRequiredSignature
  | incorrectProgramId
  | invalidInstructionData
  deriving DecidableEq, Repr

/-- The panics of the source: `v[i]` out of bounds, `&v[lo..hi]` with a range out of the
slice, `unwrap` of `None`. -/
inductive Panic where
  | indexOutOfBounds
  | sliceOutOfRange
  | unwrapNone
  deriving DecidableEq, Repr

/-- How a step of the program fails: it returns an `Err`, or it panics. -/
inductive Fault where
  | error (e : ProgramError)
  | panic (p : Panic)
  deriving DecidableEq, Repr

/-! ## Panicking operations -/

variable {α : Type}

/-- `v[i]`. -/
def index (v : List α) (i : Nat) : Except Fault α :=
  match v[i]? with
  | some a => .ok a
  | none => .error (.panic .indexOutOfBounds)

/-- `&v[lo..]`. -/
def sliceFrom (v : List α) (lo : Nat) : Except Fault (List α) :=
  if lo ≤ v.length then .ok (v.drop lo) else .error (.panic .sliceOutOfRange)

/-- `&v[lo..hi]`. -/
def slice (v : List α) (lo hi : Nat) : Except Fault (List α) :=
  if lo ≤ hi ∧ hi ≤ v.length then .ok ((v.drop lo).take (hi - lo))
  else .error (.panic .sliceOutOfRange)

/-- `v[i] = a`. -/
def setAt (v : List α) (i : Nat) (a : α) : Except Fault (List α) :=
  if i < v.length then .ok (v.set i a) else .error (.panic .indexOutOfBounds)

/-- `if !c { return Err(e) }`. -/
def require (c : Prop) [Decidable c] (e : Fault) : Except Fault Unit :=
  if c then .ok () else .error e

/-- `?` on a `Result<_, ProgramError>`. -/
def liftErr (x : Except ProgramError α) : Except Fault α := x.mapError .error

/-- `Option::unwrap`. -/
def unwrap : Option α → Except Fault α
  | some a => .ok a
  | none => .error (.panic .unwrapNone)

theorem Except.bind_eq_ok {ε β : Type} {x : Except ε α} {f : α → Except ε β} {b : β} :
    x >>= f = .ok b ↔ ∃ a, x = .ok a ∧ f a = .ok b := by
  cases x <;> simp [bind, Except.bind]

@[simp] theorem Except.ok_bind {ε β : Type} (a : α) (f : α → Except ε β) :
    (Except.ok a : Except ε α) >>= f = f a := rfl

@[simp] theorem Except.map_ok {ε β : Type} (a : α) (f : α → β) :
    f <$> (Except.ok a : Except ε α) = .ok (f a) := rfl

theorem Except.map_eq_ok {ε β : Type} {x : Except ε α} {f : α → β} {b : β} :
    f <$> x = .ok b ↔ ∃ a, x = .ok a ∧ f a = b := by
  cases x <;> simp [Functor.map, Except.map]

@[simp] theorem require_eq_ok {c : Prop} [Decidable c] {e : Fault} {u : Unit} :
    require c e = .ok u ↔ c := by
  unfold require; split <;> simp_all

theorem require_of_not {c : Prop} [Decidable c] {e : Fault} (h : ¬c) : require c e = .error e :=
  if_neg h

theorem index_ok {v : List α} {i : Nat} (h : i < v.length) : index v i = .ok v[i] := by
  simp [index, List.getElem?_eq_getElem h]

theorem index_eq_ok {v : List α} {i : Nat} {a : α} : index v i = .ok a ↔ v[i]? = some a := by
  cases h : v[i]? <;> simp [index, h]

theorem index_eq_error {v : List α} {i : Nat} (h : v.length ≤ i) :
    index v i = .error (.panic .indexOutOfBounds) := by
  simp [index, List.getElem?_eq_none h]

theorem sliceFrom_ok {v : List α} {lo : Nat} (h : lo ≤ v.length) :
    sliceFrom v lo = .ok (v.drop lo) := if_pos h

theorem sliceFrom_eq_ok {v : List α} {lo : Nat} {w : List α} :
    sliceFrom v lo = .ok w ↔ lo ≤ v.length ∧ w = v.drop lo := by
  unfold sliceFrom; split <;> simp_all [eq_comm]

theorem slice_eq_ok {v : List α} {lo hi : Nat} {w : List α} :
    slice v lo hi = .ok w ↔ (lo ≤ hi ∧ hi ≤ v.length) ∧ w = (v.drop lo).take (hi - lo) := by
  unfold slice; split <;> simp_all [eq_comm]

theorem setAt_ok {v : List α} {i : Nat} (a : α) (h : i < v.length) :
    setAt v i a = .ok (v.set i a) := if_pos h

theorem setAt_eq_ok {v : List α} {i : Nat} {a : α} {w : List α} :
    setAt v i a = .ok w ↔ i < v.length ∧ w = v.set i a := by
  unfold setAt; split <;> simp_all [eq_comm]

theorem unwrap_eq_ok {o : Option α} {a : α} : unwrap o = .ok a ↔ o = some a := by
  cases o <;> simp [unwrap]

/-! ## `u64` -/

/-- The little-endian value of a byte string. -/
def leNat : Bytes → Nat
  | [] => 0
  | b :: bs => b.toNat + 256 * leNat bs

/-- `u64::from_le_bytes`. -/
def u64FromLeBytes (bs : Bytes) : UInt64 := UInt64.ofNat (leNat bs)

/-- The `k` low bytes of `n`, least significant first. -/
def leBytes : Nat → Nat → Bytes
  | 0, _ => []
  | k + 1, n => UInt8.ofNat n :: leBytes k (n / 256)

/-- `u64::to_le_bytes`. -/
def u64ToLeBytes (n : UInt64) : Bytes := leBytes 8 n.toNat

/-- `u64::checked_mul`. -/
def checkedMul (a b : UInt64) : Option UInt64 :=
  if a.toNat * b.toNat < UInt64.size then some (a * b) else none

theorem UInt64.toNat_mul (a b : UInt64) : (a * b).toNat = a.toNat * b.toNat % UInt64.size := rfl

/-- A checked product is the exact product of the two `u64`s. -/
theorem checkedMul_eq_some {a b c : UInt64} :
    checkedMul a b = some c ↔ a.toNat * b.toNat < UInt64.size ∧ c.toNat = a.toNat * b.toNat := by
  unfold checkedMul
  split
  · rename_i h
    simp only [Option.some.injEq, h, true_and]
    constructor
    · rintro rfl; rw [UInt64.toNat_mul, Nat.mod_eq_of_lt h]
    · intro hc
      apply UInt64.eq_of_val_eq; apply Fin.ext
      show (a * b).toNat = c.toNat
      rw [hc, UInt64.toNat_mul, Nat.mod_eq_of_lt h]
  · simp_all

theorem leNat_lt (bs : Bytes) : leNat bs < Nat.pow 256 bs.length := by
  induction bs with
  | nil => simp [leNat]
  | cons b bs ih =>
    have hb : b.toNat < 256 := b.toBitVec.isLt
    show b.toNat + 256 * leNat bs < Nat.pow 256 bs.length * 256
    omega

/-- Eight bytes read as a `u64` give their little-endian value, unreduced. -/
theorem u64FromLeBytes_toNat {bs : Bytes} (h : bs.length = 8) :
    (u64FromLeBytes bs).toNat = leNat bs := by
  have := leNat_lt bs
  rw [h] at this
  exact UInt64.toNat_ofNat_of_lt this

end PermissionedDex
