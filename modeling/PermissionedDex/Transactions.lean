import PermissionedDex.Approval

/-!
# Transactions of the proxy

The runtime executes each invocation of the proxy as a transaction: the rest of the chain
is left in the state the run ends in when it succeeds, and in the state before it when it
fails, since a failed transaction is rolled back.  Each invocation builds its own chain of
the crate's middlewares.

* `Invocation.transact_delegates`: under the delegate law, one transaction leaves every
  token account with the delegate it had before or with none.
* `transactAll_delegates`: so does any sequence of transactions, each with its own chain
  and input, from any state: no delegation the proxy grants outlives the transaction that
  granted it, whatever the history.
-/

namespace PermissionedDex

/-- One invocation of the proxy: its chain of middlewares, the DEX codec, its program id,
and the caller's accounts and data. -/
structure Invocation where
  chain : List Mw
  codec : Codec
  programId : Pubkey
  accounts : List AccountInfo
  data : Bytes

namespace Invocation

variable {W : Type} (host : Host W)

/-- The state after one transaction: the run's final state, or the state before it when the
run failed. -/
def transact (i : Invocation) (w : W) : W :=
  match (MarketProxy.run ⟨i.chain.map Mw.toMiddleware⟩ i.codec host i.programId i.accounts i.data
      w).result with
  | .ok w' => w'
  | .error _ => w

end Invocation

/-- The state after a sequence of transactions, in order. -/
def transactAll {W : Type} (host : Host W) (is : List Invocation) (w : W) : W :=
  is.foldl (fun w i => i.transact host w) w

section Delegates

variable {W : Type} {host : Host W} {delegate : W → Pubkey → Option Pubkey}

/-- One transaction leaves every account with its delegate or none. -/
theorem Invocation.transact_delegates (law : DelegateLaw host delegate) (i : Invocation) (w : W)
    (s : Pubkey) : delegate (i.transact host w) s = none ∨ delegate (i.transact host w) s = delegate w s := by
  unfold Invocation.transact
  split
  · rename_i w' h
    rcases run_events_of_ok host _ _ _ _ _ w h with ⟨-, rfl, -⟩ | ⟨ctx, mi, hp, -, hc⟩
    · exact .inr rfl
    · exact (callAll_delegates law (prepare_paired hp) hc).2 s
  · exact .inr rfl

/-- Whatever the sequence of transactions through the proxy, each with its own chain of the
crate's middlewares and its own input, and whichever of them fail: afterwards every token
account has the delegate it had before them, or none.  A delegation the proxy grants never
outlives the transaction that granted it. -/
theorem transactAll_delegates (law : DelegateLaw host delegate) (is : List Invocation) (w : W)
    (s : Pubkey) :
    delegate (transactAll host is w) s = none ∨ delegate (transactAll host is w) s = delegate w s := by
  induction is generalizing w with
  | nil => exact .inr rfl
  | cons i is ih =>
    rcases ih (i.transact host w) with h | h
    · exact .inl h
    · rw [transactAll, List.foldl_cons, ← transactAll, h]
      exact i.transact_delegates law w s

end Delegates

/-- A transaction of the sample bid through `OpenOrdersPda` alone, over the token program that
keeps only the delegates, from a state where every account is delegated to `keyOf 9`: the run
approves the payer's account at slot 6 (key 7) to the open orders account (key 2) before the
relay and revokes it after, so afterwards the payer's account has no delegate. -/
theorem transactAll_delegates_delegateHost :
    DelegateLaw delegateHost id ∧
    Event.call .pre (.invokeSigned (approveIx splTokenId (keyOf 7) (keyOf 2) (keyOf 8) [] 100)
        [callerAccount false 7, callerAccount false 2, callerAccount true 8] []) ∈
      (MarketProxy.run ⟨[Mw.openOrdersPda .new].map Mw.toMiddleware⟩ sampleCodec delegateHost
        serumDexProgramId (dexAccount :: callerAccounts 7 (List.range' 1 12)) (1 :: sampleBid.pack)
        (fun _ => some (keyOf 9))).events ∧
    transactAll delegateHost [⟨[.openOrdersPda .new], sampleCodec, serumDexProgramId,
        dexAccount :: callerAccounts 7 (List.range' 1 12), 1 :: sampleBid.pack⟩]
      (fun _ => some (keyOf 9)) (keyOf 7) = none ∧
    (id (transactAll delegateHost [⟨[.openOrdersPda .new], sampleCodec, serumDexProgramId,
          dexAccount :: callerAccounts 7 (List.range' 1 12), 1 :: sampleBid.pack⟩]
        (fun _ => some (keyOf 9))) (keyOf 7) = none ∨
      id (transactAll delegateHost [⟨[.openOrdersPda .new], sampleCodec, serumDexProgramId,
          dexAccount :: callerAccounts 7 (List.range' 1 12), 1 :: sampleBid.pack⟩]
        (fun _ => some (keyOf 9))) (keyOf 7) = id (fun _ => some (keyOf 9)) (keyOf 7)) :=
  ⟨delegateHost_law, by decide!, by decide!, transactAll_delegates delegateHost_law _ _ _⟩

end PermissionedDex
