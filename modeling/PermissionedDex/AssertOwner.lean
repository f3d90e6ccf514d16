import PermissionedDex.Runtime

/-!
# The owner check (`assert-owner`)

The sibling program of the proxy: `entry` accepts an invocation when the owner of its first
account is the 32-byte key of the instruction data, and returns an error otherwise.

* `entry_spec`: `entry` is the check "the data are the bytes of the first account's owner",
  with the error of the first check that fails, in the order of the source: no account,
  data not 32 bytes, another owner.  Unlike `MarketProxy::run`'s `accounts[0]`,
  `accounts.get(0).ok_or(..)` checks the length of the account list, so no case aborts.
* `entry_eq_ok_iff`: an invocation is accepted exactly when there is a first account and
  the data are its owner's key.
-/

namespace PermissionedDex
namespace AssertOwner

/-- `Option::ok_or`. -/
def okOr {α ε : Type} : Option α → ε → Except ε α
  | some a, _ => .ok a
  | none, e => .error e

/-- `Pubkey::try_from(&[u8])`: the key of a slice of 32 bytes. -/
def pubkeyTryFrom (bs : Bytes) : Option Pubkey :=
  if h : bs.length = 32 then some ⟨bs, h⟩ else none

/-- `entry`: the owner of `accounts[0]` against the key in the data. -/
def entry (_programId : Pubkey) (accounts : List AccountInfo) (instructionData : Bytes) :
    Except Fault Unit := do
  let account ← okOr (accounts.get? 0) (Fault.error .notEnoughAccountKeys)
  if instructionData.length ≠ 32 then throw (.error .invalidInstructionData)
  let expectedOwner ← okOr (pubkeyTryFrom instructionData) (Fault.error .invalidInstructionData)
  if expectedOwner ≠ account.owner then throw (.error (.custom 0x100))
  pure ()

theorem pubkeyTryFrom_of_length {bs : Bytes} (h : bs.length = 32) : pubkeyTryFrom bs = some ⟨bs, h⟩ :=
  dif_pos h

theorem Pubkey.mk_eq_iff {bs : Bytes} {h : bs.length = 32} {k : Pubkey} : (⟨bs, h⟩ : Pubkey) = k ↔ bs = k.bytes := by
  cases k; simp

/-- What `entry` decides: an invocation is accepted exactly when the data are the bytes of
the owner of the first account; otherwise the error names the first check that fails. -/
theorem entry_spec (programId : Pubkey) (accounts : List AccountInfo) (instructionData : Bytes) :
    entry programId accounts instructionData =
      match accounts with
      | [] => .error (.error .notEnoughAccountKeys)
      | account :: _ =>
        if instructionData = account.owner.bytes then .ok ()
        else if instructionData.length = 32 then .error (.error (.custom 0x100))
        else .error (.error .invalidInstructionData) := by
  cases accounts with
  | nil => rfl
  | cons account rest =>
    by_cases hl : instructionData.length = 32
    · simp only [entry, okOr, List.get?_cons_zero, Except.ok_bind, hl, ne_eq, not_true_eq_false,
        ↓reduceIte, pubkeyTryFrom_of_length hl, Pubkey.mk_eq_iff]
      split_ifs <;> rfl
    · have ho : instructionData ≠ account.owner.bytes := fun h => hl (h ▸ account.owner.length_bytes)
      simp only [entry, okOr, List.get?_cons_zero, Except.ok_bind, hl, ho, ne_eq, not_false_eq_true,
        ↓reduceIte]
      rfl

/-- `entry` accepts exactly when there is a first account and the data are its owner's key. -/
theorem entry_eq_ok_iff (programId : Pubkey) (accounts : List AccountInfo) (instructionData : Bytes)
    (u : Unit) : entry programId accounts instructionData = .ok u ↔
      ∃ account rest, accounts = account :: rest ∧ instructionData = account.owner.bytes := by
  rw [entry_spec]
  rcases accounts with _ | ⟨account, rest⟩
  · simp
  · dsimp only
    split_ifs with h <;> simp [h]

end AssertOwner
end PermissionedDex
