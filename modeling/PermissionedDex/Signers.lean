import PermissionedDex.Chain

/-!
# Who signs the DEX relay

The relay forwards the working accounts as the hooks leave them, signed by the seeds
they add.  Of this crate's middlewares only `OpenOrdersPda` changes either: it puts the
open orders account, marked as signer, in the owner's slot (for an init, it also marks
the market authority as signer), after checking that the owner signed, and adds the
seeds of the addresses it signs for.

* `Substitutes before after slots`: `after` holds accounts of `before`, except at
  `slots`, where it holds an account of `before` marked as signer.
  `OpenOrdersPda.hooks_call_substitutes`: every hook of `OpenOrdersPda` substitutes at
  `MarketInstruction.pdaSlots`.
* `OpenOrdersPda.hooks_call_seeds`: what a hook adds to the seeds is `SignedFor`: for an
  operation with an owner slot (`MarketInstruction.ownerSlots`), the owner at that slot of
  the list the hook got signed, and the seeds added are `pdaSeeds` of the market and that
  owner; the other hooks add none.
* `run_relay_signers`: with one `OpenOrdersPda` among loggers and referral checks, in any
  order, every signer of the relay is a signer of the caller or sits at a slot of
  `pdaSlots`, where it is a caller's account marked as signer, and the relay is signed by
  `pdaSeeds` of an owner who signed.
-/

namespace PermissionedDex

/-! ## The slots and seeds of `OpenOrdersPda` -/

/-- The slots of the relayed list `OpenOrdersPda` marks as signer for an operation: the
owner's slot, which gets the open orders account, and for an init the market authority
(an init relays the working list without its first two accounts). -/
def MarketInstruction.pdaSlots : MarketInstruction → List Nat
  | .initOpenOrders => [1, 4]
  | .newOrderV3 _ => [7]
  | .cancelOrderV2 _ => [4]
  | .cancelOrderByClientIdV2 _ => [4]
  | .settleFunds => [2]
  | .closeOpenOrders => [1]
  | _ => []

/-- The slots of the working list `OpenOrdersPda` reads for an operation it signs for: the
owner, who must sign, and the market. -/
def MarketInstruction.ownerSlots : MarketInstruction → Option (Nat × Nat)
  | .initOpenOrders => some (3, 4)
  | .newOrderV3 _ => some (7, 0)
  | .cancelOrderV2 _ => some (4, 0)
  | .cancelOrderByClientIdV2 _ => some (4, 0)
  | .settleFunds => some (2, 0)
  | .closeOpenOrders => some (1, 3)
  | _ => none

theorem MarketInstruction.ownerSlots_of_signSlots {mi : MarketInstruction} {m u p : Nat}
    (h : mi.signSlots = some (m, u, p)) : mi.ownerSlots = some (u, m) ∧ mi.pdaSlots = [u] := by
  cases mi <;> simp only [signSlots, Option.some.injEq, Prod.mk.injEq, reduceCtorEq] at h <;>
    obtain ⟨rfl, rfl, rfl⟩ := h <;> exact ⟨rfl, rfl⟩

namespace OpenOrdersPda

/-- The seed paths `OpenOrdersPda` signs with for the market and the owner: the open orders
authority and, for an init, the init authority. -/
def pdaSeeds (self : OpenOrdersPda) (dexProgram market user : Pubkey) : MarketInstruction → Seeds
  | .initOpenOrders => [openOrdersAuthority dexProgram market user self.bump,
      openOrdersInitAuthority dexProgram market self.bumpInit]
  | _ => [openOrdersAuthority dexProgram market user self.bump]

/-- `added` are the seeds a hook of `OpenOrdersPda` may add for `mi` on the working list
`before`: for an operation with an owner slot, the owner there signed and `added` is
`pdaSeeds` of the market and that owner; otherwise nothing. -/
def SignedFor (self : OpenOrdersPda) (mi : MarketInstruction) (before : List AccountInfo)
    (dexProgram : Pubkey) (added : Seeds) : Prop :=
  match mi.ownerSlots with
  | some (u, m) => ∃ user market, before[u]? = some user ∧ user.isSigner = true ∧
      before[m]? = some market ∧ added = self.pdaSeeds dexProgram market.key user.key mi
  | none => added = []

end OpenOrdersPda

/-! ## Substituted slots -/

/-- `after` holds accounts of `before`, except at `slots`, where it holds an account of
`before` marked as signer. -/
structure Substitutes (before after : List AccountInfo) (slots : List Nat) : Prop where
  kept : ∀ j a, after[j]? = some a → a ∈ before ∨ j ∈ slots
  signed : ∀ j ∈ slots, ∃ a ∈ before, after[j]? = some (OpenOrdersPda.preparePda a)

namespace Substitutes

variable {before after : List AccountInfo} {slots : List Nat}

theorem drop (l : List AccountInfo) (k : Nat) : Substitutes l (l.drop k) [] :=
  ⟨fun _ _ h => .inl (List.mem_of_mem_drop (List.getElem?_mem h)), fun _ h => absurd h (List.not_mem_nil _)⟩

theorem refl (l : List AccountInfo) : Substitutes l l [] := drop l 0

/-- Overwriting a slot with an account of `before` keeps the substitution. -/
theorem set_mem (h : Substitutes before after slots) {i : Nat} {b : AccountInfo} (hb : b ∈ before)
    (hi : i ∉ slots) : Substitutes before (after.set i b) slots := by
  constructor
  · intro j a hj
    by_cases hij : i = j
    · subst hij
      rw [List.getElem?_set, if_pos rfl] at hj
      split_ifs at hj
      exact .inl (Option.some.inj hj ▸ hb)
    · rw [List.getElem?_set_ne hij] at hj
      exact h.kept j a hj
  · intro j hj
    rw [List.getElem?_set_ne (fun hij : i = j => hi (hij ▸ hj))]
    exact h.signed j hj

/-- Putting an account of `before`, marked as signer, in a slot adds that slot. -/
theorem set_prepare (h : Substitutes before after slots) {i : Nat} {a : AccountInfo}
    (ha : a ∈ before) (hi : i < after.length) :
    Substitutes before (after.set i (OpenOrdersPda.preparePda a)) (slots ++ [i]) := by
  constructor
  · intro j a' hj
    by_cases hij : i = j
    · exact .inr (List.mem_append_right _ (List.mem_singleton.mpr hij.symm))
    · rw [List.getElem?_set_ne hij] at hj
      exact (h.kept j a' hj).imp_right (List.mem_append_left _)
  · intro j hj
    by_cases hij : i = j
    · subst hij; exact ⟨a, ha, List.getElem?_set_self hi⟩
    · rw [List.getElem?_set_ne hij]
      exact h.signed j ((List.mem_append.mp hj).resolve_right
        (fun h' => hij (List.mem_singleton.mp h').symm))

end Substitutes

/-! ## What each hook of `OpenOrdersPda` does to the accounts and the seeds -/

namespace OpenOrdersPda

variable (self : OpenOrdersPda) {ctx ctx' : Context}

theorem signAsPda_substitutes {m u p : Nat} (h : self.signAsPda m u p ctx = .ok ctx') :
    Substitutes ctx.accounts ctx'.accounts [u] := by
  obtain ⟨_, _, pda, -, -, hp, -, hu, rfl⟩ := signAsPda_ok self h
  exact (Substitutes.refl _).set_prepare (List.getElem?_mem hp) hu

theorem initOpenOrders_substitutes (h : self.initOpenOrders ctx = .ok ctx') :
    Substitutes ctx.accounts ctx'.accounts [1, 4] := by
  obtain ⟨a2, _, _, a6, h2, -, -, h6, -, rfl⟩ := initOpenOrders_ok self h
  have hlen : 6 < ctx.accounts.length := (List.getElem?_eq_some_iff.mp h6).1
  exact ((Substitutes.drop _ 2).set_prepare (List.getElem?_mem h2) (by simp; omega)).set_prepare
    (List.getElem?_mem h6) (by simp; omega)

theorem newOrderV3_substitutes {ix ix' : NewOrderInstructionV3}
    (h : self.newOrderV3 ctx ix = .ok (ctx', ix')) : Substitutes ctx.accounts ctx'.accounts [7] := by
  obtain ⟨_, oo, _, _, _, -, h1, -, h7, -, -, -, rfl⟩ := newOrderV3_ok self h
  exact (Substitutes.refl _).set_prepare (List.getElem?_mem h1) (List.getElem?_eq_some_iff.mp h7).1

theorem prune_substitutes {l l' : UInt16} (h : prune ctx l = .ok (ctx', l')) :
    Substitutes ctx.accounts ctx'.accounts [] := by
  obtain ⟨a4, h4, -, -, rfl⟩ := prune_ok h
  exact (Substitutes.refl _).set_mem (List.getElem?_mem h4) (List.not_mem_nil _)

/-- Every hook of `OpenOrdersPda` substitutes the open orders account (and, for an init, the
market authority) at the slots of `pdaSlots`, and keeps the other accounts it got. -/
theorem hooks_call_substitutes {mi : MarketInstruction} {r : Context × MarketInstruction}
    (h : self.hooks.call (ctx, mi) = .ok r) : Substitutes ctx.accounts r.1.accounts mi.pdaSlots := by
  rcases hooks_call_cases self ctx h with ⟨_, _, _, c, hs, hc, rfl⟩ | ⟨c, rfl, hc, rfl⟩ |
    ⟨ix, c, rfl, hc, rfl⟩ | ⟨l, c, rfl, hc, rfl⟩ | ⟨hmi, rfl⟩
  · rw [(MarketInstruction.ownerSlots_of_signSlots hs).2]
    exact signAsPda_substitutes self hc
  · exact initOpenOrders_substitutes self hc
  · exact newOrderV3_substitutes self hc
  · exact prune_substitutes hc
  · rcases hmi with ⟨_, rfl⟩ | ⟨_, rfl⟩ | ⟨_, rfl⟩ <;> exact Substitutes.refl _

/-- Every hook of `OpenOrdersPda` only appends to the seeds, and what it appends is
`SignedFor` the list it got. -/
theorem hooks_call_seeds {mi : MarketInstruction} {r : Context × MarketInstruction}
    (h : self.hooks.call (ctx, mi) = .ok r) :
    ∃ added, r.1.seeds = ctx.seeds ++ added ∧ self.SignedFor mi ctx.accounts ctx.dexProgramId added := by
  rcases hooks_call_cases self ctx h with ⟨_, _, _, c, hs, hc, rfl⟩ | ⟨c, rfl, hc, rfl⟩ |
    ⟨ix, c, rfl, hc, rfl⟩ | ⟨l, c, rfl, hc, rfl⟩ | ⟨hmi, rfl⟩
  · obtain ⟨market, user, _, hm, hu, -, hsig, -, rfl⟩ := signAsPda_ok self hc
    refine ⟨_, rfl, ?_⟩
    rw [SignedFor, (MarketInstruction.ownerSlots_of_signSlots hs).1]
    refine ⟨user, market, hu, hsig, hm, ?_⟩
    cases mi <;> first | rfl | cases hs
  · obtain ⟨_, a3, a4, _, -, h3, h4, -, hsig, rfl⟩ := initOpenOrders_ok self hc
    exact ⟨_, rfl, a3, a4, h3, hsig, h4, rfl⟩
  · obtain ⟨market, _, _, user, _, h0, -, -, h7, hsig, -, -, rfl⟩ := newOrderV3_ok self hc
    exact ⟨_, rfl, user, market, h7, hsig, h0, rfl⟩
  · obtain ⟨_, -, -, -, rfl⟩ := prune_ok hc
    exact ⟨[], (List.append_nil _).symm, rfl⟩
  · rcases hmi with ⟨_, rfl⟩ | ⟨_, rfl⟩ | ⟨_, rfl⟩ <;> exact ⟨[], (List.append_nil _).symm, rfl⟩

end OpenOrdersPda

/-! ## The relay -/

/-- With one `OpenOrdersPda` among loggers and referral checks, in any order: when a run
reaches the DEX relay, every account the relay marks as signer is a signer of the caller or
sits at a slot of `pdaSlots`, where it is a working account of the caller marked as signer,
and the seeds the relay is signed with are `SignedFor` the caller's working list: the owner
at the owner slot signed, and they are `pdaSeeds` of that owner and the market. -/
theorem run_relay_signers {W : Type} {pre post : List Mw} (hpre : ∀ m ∈ pre, m.isPda = false)
    (hpost : ∀ m ∈ post, m.isPda = false) (p : OpenOrdersPda) (codec : Codec) (host : Host W)
    (programId : Pubkey) (accounts : List AccountInfo) (data : Bytes) (w : W)
    {ix : Instruction} {accs : List AccountInfo} {seeds : Seeds}
    (h : Event.call .relay (.invokeSigned ix accs seeds) ∈
      (MarketProxy.run ⟨(pre ++ .openOrdersPda p :: post).map Mw.toMiddleware⟩ codec host
        programId accounts data w).events) :
    ∃ dex rest d p' mi, accounts = dex :: rest ∧ p.instruction data = .ok (p', d) ∧
      codec.unpack d = some mi ∧ ix = relayInstruction accs (codec.pack mi) ∧
      (∀ j (m : AccountMeta), ix.accounts[j]? = some m → m.isSigner = true →
        (∃ a ∈ accounts, a.isSigner = true ∧ a.key = m.pubkey) ∨ j ∈ mi.pdaSlots) ∧
      (∀ j ∈ mi.pdaSlots, ∃ a ∈ rest, accs[j]? = some (OpenOrdersPda.preparePda a)) ∧
      p'.SignedFor mi rest dex.key seeds := by
  obtain ⟨ctx, mi, hp, hc⟩ := run_relay _ codec host programId accounts data w h
  obtain ⟨dex, rest, d, p', -, -, rfl, -, hd, hu, -, -, hcall⟩ := prepare_single_pda hpre hpost hp
  cases hc
  have hsub := p'.hooks_call_substitutes hcall
  obtain ⟨added, hseeds, hsigned⟩ := p'.hooks_call_seeds hcall
  refine ⟨dex, rest, d, p', mi, rfl, hd, hu, rfl, ?_, hsub.signed, ?_⟩
  · intro j m hj hsig
    rw [relayInstruction, List.getElem?_map] at hj
    obtain ⟨a, ha, rfl⟩ := Option.map_eq_some'.mp hj
    exact (hsub.kept j a ha).imp_left fun hmem => ⟨a, List.mem_cons_of_mem _ hmem, hsig, rfl⟩
  · rw [hseeds]
    exact hsigned

/-- A settle of the sample accounts through `OpenOrdersPda` alone, only the owner at slot 2
signing: the relay forwards the open orders account (key 2), marked as signer, in the owner's
slot, and is signed for the owner's open orders authority on the market at slot 0. -/
theorem run_relay_signers_settleFunds :
    Event.call .relay (.invokeSigned
        (relayInstruction (callerAccounts 2 [1, 2, 2, 4, 5, 6, 7, 8, 9, 10]) [0, 5, 0, 0, 0])
        (callerAccounts 2 [1, 2, 2, 4, 5, 6, 7, 8, 9, 10])
        [openOrdersAuthority serumDexProgramId (keyOf 1) (keyOf 3) 0]) ∈
      (MarketProxy.run ⟨([] ++ Mw.openOrdersPda .new :: []).map Mw.toMiddleware⟩ sampleCodec
        (fun _ (w : Unit) => .ok w) serumDexProgramId (dexAccount :: callerAccounts 2 (List.range' 1 10))
        [1, 0, 5, 0, 0, 0] ()).events ∧
    ∃ (dex : AccountInfo) (rest : List AccountInfo) (d : Bytes) (p' : OpenOrdersPda)
      (mi : MarketInstruction), dexAccount :: callerAccounts 2 (List.range' 1 10) = dex :: rest ∧
      OpenOrdersPda.new.instruction [1, 0, 5, 0, 0, 0] = .ok (p', d) ∧ sampleCodec.unpack d = some mi ∧
      relayInstruction (callerAccounts 2 [1, 2, 2, 4, 5, 6, 7, 8, 9, 10]) [0, 5, 0, 0, 0] =
        relayInstruction (callerAccounts 2 [1, 2, 2, 4, 5, 6, 7, 8, 9, 10]) (sampleCodec.pack mi) ∧
      (∀ j (m : AccountMeta),
        (relayInstruction (callerAccounts 2 [1, 2, 2, 4, 5, 6, 7, 8, 9, 10])
          [0, 5, 0, 0, 0]).accounts[j]? = some m → m.isSigner = true →
        (∃ a ∈ dexAccount :: callerAccounts 2 (List.range' 1 10), a.isSigner = true ∧
          a.key = m.pubkey) ∨ j ∈ mi.pdaSlots) ∧
      (∀ j ∈ mi.pdaSlots, ∃ a ∈ rest,
        (callerAccounts 2 [1, 2, 2, 4, 5, 6, 7, 8, 9, 10])[j]? = some (OpenOrdersPda.preparePda a)) ∧
      p'.SignedFor mi rest dex.key [openOrdersAuthority serumDexProgramId (keyOf 1) (keyOf 3) 0] :=
  have h : Event.call .relay _ ∈ _ := by decide!
  ⟨h, run_relay_signers (by simp) (by simp) _ _ _ _ _ _ _ h⟩

end PermissionedDex
