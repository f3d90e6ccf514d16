import PermissionedDex.Signers

/-!
# Where the accounts a run forwards come from

The proxy may drop, alias and mark as signer the accounts of its working list, but it has no
way to make one: every account a hook of the crate writes into the working list, or queues
with an instruction, is an account of the list it got, possibly marked as signer by
`prepare_pda`, and no hook queues a post callback (`Mw.hooks_call_provenant`).  So, over a
whole run and for any chain of the crate's middlewares (`run_calls_fromCaller`):

* every external call is an `invoke_signed`, and each account it is handed is one of the
  caller's accounts after the DEX program, possibly marked as signer;
* the relay forwards the decoded payload, re-encoded, over metas whose keys and writable
  flags are those of the caller's accounts: no account becomes writable through the proxy.

The hooks also write only the slots they substitute, and slot 5 of a prune
(`MarketInstruction.Frame`).  What they write there does not depend on how many
`OpenOrdersPda` the chain has: for every operation but an init, the relay forwards the
caller's working list with the open orders account, marked as signer, in the owner's slot
(`MarketInstruction.relayed`, `run_relay_accounts`).  An init with one `OpenOrdersPda`
relays the list without its first two accounts, the open orders account in the owner's slot
(`run_relay_init`).
-/

namespace PermissionedDex

open OpenOrdersPda (preparePda)

/-- `a` is an account of `callers`, or one of them marked as signer. -/
def FromCaller (callers : List AccountInfo) (a : AccountInfo) : Prop :=
  ∃ b ∈ callers, a = b ∨ a = preparePda b

/-- Every account of the context comes from `callers`, in the working list and queued with an
instruction, and no post callback is queued. -/
structure Context.Provenant (callers : List AccountInfo) (ctx : Context) : Prop where
  accounts : ∀ a ∈ ctx.accounts, FromCaller callers a
  preInstructions : ∀ e ∈ ctx.preInstructions, ∀ a ∈ e.2.1, FromCaller callers a
  postInstructions : ∀ e ∈ ctx.postInstructions, ∀ a ∈ e.2.1, FromCaller callers a
  postCallbacks : ctx.postCallbacks = []

namespace FromCaller

variable {callers l : List AccountInfo} {a x : AccountInfo}

theorem preparePda (h : FromCaller callers a) : FromCaller callers (preparePda a) := by
  obtain ⟨_, hb, rfl | rfl⟩ := h <;> exact ⟨_, hb, .inr rfl⟩

/-- Keys, writable flags, owners and data are the caller's; only the signer flag may be set. -/
theorem fields (h : FromCaller callers a) :
    ∃ b ∈ callers, a.key = b.key ∧ a.isWritable = b.isWritable ∧
      (a.isSigner = b.isSigner ∨ a.isSigner = true) := by
  obtain ⟨_, hb, rfl | rfl⟩ := h
  · exact ⟨_, hb, rfl, rfl, .inl rfl⟩
  · exact ⟨_, hb, rfl, rfl, .inr rfl⟩

theorem set (hl : ∀ a ∈ l, FromCaller callers a) (hx : FromCaller callers x) (i : Nat) :
    ∀ a ∈ l.set i x, FromCaller callers a := fun a ha =>
  (List.mem_or_eq_of_mem_set ha).elim (hl a) fun h => h ▸ hx

end FromCaller

theorem Context.Provenant.new (programId dexProgramId : Pubkey) (accounts : List AccountInfo) :
    (Context.new programId dexProgramId accounts).Provenant accounts :=
  ⟨fun a ha => ⟨a, ha, .inl rfl⟩, (fun _ h => nomatch h), (fun _ h => nomatch h), rfl⟩

/-! ## Every hook keeps the accounts the caller's -/

namespace OpenOrdersPda

variable (self : OpenOrdersPda) {callers : List AccountInfo} {ctx : Context}

theorem hooks_call_provenant {mi : MarketInstruction} {r : Context × MarketInstruction}
    (h : self.hooks.call (ctx, mi) = .ok r) (hc : ctx.Provenant callers) :
    r.1.Provenant callers := by
  have mem : ∀ {i a}, ctx.accounts[i]? = some a → FromCaller callers a :=
    fun ha => hc.accounts _ (List.getElem?_mem ha)
  rcases hooks_call_cases self ctx h with ⟨_, _, _, c, -, hcall, rfl⟩ | ⟨c, rfl, hcall, rfl⟩ |
    ⟨ix, c, rfl, hcall, rfl⟩ | ⟨l, c, rfl, hcall, rfl⟩ | ⟨-, rfl⟩
  · obtain ⟨_, _, _, -, -, hp, -, -, rfl⟩ := signAsPda_ok self hcall
    exact ⟨FromCaller.set hc.accounts (mem hp).preparePda _, hc.preInstructions,
      hc.postInstructions, hc.postCallbacks⟩
  · obtain ⟨_, _, _, _, h2, -, -, h6, -, rfl⟩ := initOpenOrders_ok self hcall
    have hdrop : ∀ a ∈ ctx.accounts.drop 2, FromCaller callers a :=
      fun a ha => hc.accounts a (List.mem_of_mem_drop ha)
    exact ⟨FromCaller.set (FromCaller.set hdrop (mem h2).preparePda _) (mem h6).preparePda _,
      hc.preInstructions, hc.postInstructions, hc.postCallbacks⟩
  · obtain ⟨_, _, _, _, _, -, h1, h6, h7, -, -, -, rfl⟩ := newOrderV3_ok self hcall
    have queued : ∀ {e : Instruction × List AccountInfo × Seeds} {q},
        (∀ e ∈ q, ∀ a ∈ e.2.1, FromCaller callers a) → (∀ a ∈ e.2.1, FromCaller callers a) →
          ∀ e' ∈ q ++ [e], ∀ a ∈ e'.2.1, FromCaller callers a := by
      intro e q hq he e' he'
      rcases List.mem_append.mp he' with he' | he'
      · exact hq e' he'
      · exact List.mem_singleton.mp he' ▸ he
    refine ⟨FromCaller.set hc.accounts (mem h1).preparePda _, queued hc.preInstructions ?_,
      queued hc.postInstructions ?_, hc.postCallbacks⟩
    · simp only [List.mem_cons, List.not_mem_nil, or_false]
      rintro a (rfl | rfl | rfl)
      exacts [mem h6, mem h1, mem h7]
    · simp only [List.mem_cons, List.not_mem_nil, or_false]
      rintro a (rfl | rfl)
      exacts [mem h6, mem h7]
  · obtain ⟨_, h4, -, -, rfl⟩ := prune_ok hcall
    exact ⟨FromCaller.set hc.accounts (mem h4) _, hc.preInstructions, hc.postInstructions,
      hc.postCallbacks⟩
  · exact hc

end OpenOrdersPda

/-- Every hook of the crate, from a context whose accounts come from the caller, leaves one. -/
theorem Mw.hooks_call_provenant (m : Mw) {callers : List AccountInfo} {s r : Context × MarketInstruction}
    (h : m.hooks.call s = .ok r) (hc : s.1.Provenant callers) : r.1.Provenant callers := by
  cases hm : m.isPda with
  | false => rw [hooks_call_of_not_pda hm h]; exact hc
  | true =>
    match m, hm with
    | .openOrdersPda p, _ => exact p.hooks_call_provenant h hc

/-- What `prepare` leaves to relay, for any chain of the crate: a context whose accounts come
from the caller's accounts after the DEX program, and the decoded payload. -/
theorem prepare_provenant {chain : List Mw} {codec : Codec} {programId : Pubkey}
    {dex : AccountInfo} {rest : List AccountInfo} {data : Bytes} {ctx : Context}
    {ix : MarketInstruction}
    (h : (MarketProxy.prepare ⟨chain.map Mw.toMiddleware⟩ codec programId (dex :: rest) data).result =
      .ok (some (ctx, ix))) :
    ctx.Provenant rest ∧ MarketProxy.decode ⟨chain.map Mw.toMiddleware⟩ codec data = some ix := by
  obtain ⟨_, _, _, chain', _, _, he, -, -, -, -, hf⟩ := prepare_chain h
  cases he
  refine ⟨foldlM_inv Hooks.call (fun s => s.1.Provenant rest) ?_ hf (Context.Provenant.new _ _ _),
    MarketProxy.decode_of_prepare h⟩
  intro k hk s s' hc hs
  obtain ⟨m, -, rfl⟩ := List.mem_map.mp hk
  exact m.hooks_call_provenant hc hs

/-- The proxy forwards only what the caller sent.  For any chain of the crate's middlewares,
every external call of a run is an `invoke_signed` (never a post callback) handed only
accounts of the caller after the DEX program, some marked as signer; and the relay carries
the decoded payload, re-encoded, over metas with the keys and writable flags of the
caller's accounts. -/
theorem run_calls_fromCaller {W : Type} (chain : List Mw) (codec : Codec) (host : Host W)
    (programId : Pubkey) (dex : AccountInfo) (rest : List AccountInfo) (data : Bytes) (w : W) :
    (∀ ph c, Event.call ph c ∈ (MarketProxy.run ⟨chain.map Mw.toMiddleware⟩ codec host programId
        (dex :: rest) data w).events →
      ∃ ix accs seeds, c = .invokeSigned ix accs seeds ∧ ∀ a ∈ accs, FromCaller rest a) ∧
    (∀ ix accs seeds, Event.call .relay (.invokeSigned ix accs seeds) ∈
        (MarketProxy.run ⟨chain.map Mw.toMiddleware⟩ codec host programId (dex :: rest) data
          w).events →
      (∃ mi, MarketProxy.decode ⟨chain.map Mw.toMiddleware⟩ codec data = some mi ∧
        ix = relayInstruction accs (codec.pack mi)) ∧
      ∀ m ∈ ix.accounts, ∃ b ∈ rest, m.pubkey = b.key ∧ m.isWritable = b.isWritable ∧
        (m.isSigner = b.isSigner ∨ m.isSigner = true)) := by
  refine ⟨fun ph c hev => ?_, fun ix accs seeds hev => ?_⟩
  · obtain ⟨ctx, mi, hp, hc⟩ := run_call _ codec host programId _ data w hev
    have hfrom := (prepare_provenant hp).1
    simp only [Context.calls, List.mem_append, List.mem_cons, List.mem_map, Prod.mk.injEq] at hc
    rcases hc with ⟨e, he, -, rfl⟩ | ⟨-, rfl⟩ | ⟨e, he, -, rfl⟩ | ⟨e, he, -, rfl⟩
    · exact ⟨_, _, _, rfl, hfrom.preInstructions e he⟩
    · exact ⟨_, _, _, rfl, hfrom.accounts⟩
    · exact ⟨_, _, _, rfl, hfrom.postInstructions e he⟩
    · rw [hfrom.postCallbacks] at he; cases he
  · obtain ⟨ctx, mi, hp, hc⟩ := run_relay _ codec host programId _ data w hev
    obtain ⟨hfrom, hdec⟩ := prepare_provenant hp
    simp only [Call.invokeSigned.injEq] at hc
    obtain ⟨rfl, rfl, -⟩ := hc
    refine ⟨⟨mi, hdec, rfl⟩, fun m hm => ?_⟩
    obtain ⟨a, ha, rfl⟩ := List.mem_map.mp hm
    exact (hfrom.accounts a ha).fields

/-! ## Which slots the hooks write -/

/-- `after` is `before`, of the same length, except at the slots the hooks of the crate write
for `mi`: the ones `OpenOrdersPda` substitutes, and slot 5 of a prune. -/
def MarketInstruction.Frame (mi : MarketInstruction) (before after : List AccountInfo) : Prop :=
  after.length = before.length ∧
    ∀ j, j ∉ mi.pdaSlots → (∀ l, mi = .prune l → j ≠ 5) → after[j]? = before[j]?

namespace MarketInstruction.Frame

variable {mi : MarketInstruction} {l₁ l₂ l₃ : List AccountInfo}

theorem refl (mi : MarketInstruction) (l : List AccountInfo) : mi.Frame l l :=
  ⟨rfl, fun _ _ _ => rfl⟩

theorem trans (h₁ : mi.Frame l₁ l₂) (h₂ : mi.Frame l₂ l₃) : mi.Frame l₁ l₃ :=
  ⟨h₂.1.trans h₁.1, fun j hj hp => (h₂.2 j hj hp).trans (h₁.2 j hj hp)⟩

theorem set {i : Nat} (a : AccountInfo) (hi : i ∈ mi.pdaSlots ∨ ∃ l, mi = .prune l ∧ i = 5) :
    mi.Frame l₁ (l₁.set i a) := by
  refine ⟨List.length_set _ _ _, fun j hj hp => List.getElem?_set_ne fun hij => ?_⟩
  subst hij
  rcases hi with hi | ⟨l, rfl, rfl⟩
  · exact hj hi
  · exact hp l rfl rfl

end MarketInstruction.Frame

/-- A hook of the crate, but an init, writes only the slots of `MarketInstruction.Frame`. -/
theorem Mw.hooks_call_frame (m : Mw) {ctx : Context} {mi : MarketInstruction}
    {r : Context × MarketInstruction} (hmi : mi ≠ .initOpenOrders) (h : m.hooks.call (ctx, mi) = .ok r) :
    mi.Frame ctx.accounts r.1.accounts := by
  cases hm : m.isPda with
  | false => rw [hooks_call_of_not_pda hm h]; exact .refl _ _
  | true =>
    match m, hm with
    | .openOrdersPda p, _ =>
      rcases p.hooks_call_cases ctx h with ⟨_, _, _, c, hs, hc, rfl⟩ | ⟨c, rfl, -, -⟩ |
        ⟨ix, c, rfl, hc, rfl⟩ | ⟨l, c, rfl, hc, rfl⟩ | ⟨-, rfl⟩
      · obtain ⟨_, _, _, -, -, -, -, -, rfl⟩ := p.signAsPda_ok hc
        exact .set _ (.inl ((MarketInstruction.ownerSlots_of_signSlots hs).2 ▸ .head _))
      · exact absurd rfl hmi
      · obtain ⟨_, _, _, _, _, -, -, -, -, -, -, -, rfl⟩ := p.newOrderV3_ok hc
        exact .set _ (.inl (.head _))
      · obtain ⟨_, -, -, -, rfl⟩ := OpenOrdersPda.prune_ok hc
        exact .set _ (.inr ⟨l, rfl, rfl⟩)
      · exact .refl _ _

/-- One hook of a chain, for an operation other than an init, keeps the payload and the
frame of the working list it started from. -/
theorem Mw.frame_step {mi : MarketInstruction} (hmi : mi ≠ .initOpenOrders)
    (accounts : List AccountInfo) {l : List Mw} :
    ∀ k ∈ l.map Mw.hooks, ∀ s s', k.call s = .ok s' →
      s.2 = mi ∧ mi.Frame accounts s.1.accounts → s'.2 = mi ∧ mi.Frame accounts s'.1.accounts := by
  rintro k hk ⟨c, _⟩ s' hc ⟨rfl, hf⟩
  obtain ⟨m, -, rfl⟩ := List.mem_map.mp hk
  exact ⟨m.hooks_call_payload hc, hf.trans (m.hooks_call_frame hmi hc)⟩

/-- Along the hooks of a chain, an operation other than an init keeps its payload, and the
working list changes only in its frame. -/
theorem foldlM_frame {l : List Mw} {ctx : Context} {mi : MarketInstruction}
    {r : Context × MarketInstruction} (hmi : mi ≠ .initOpenOrders)
    (h : (l.map Mw.hooks).foldlM (fun s k => k.call s) (ctx, mi) = .ok r) :
    r.2 = mi ∧ mi.Frame ctx.accounts r.1.accounts :=
  foldlM_inv Hooks.call _ (Mw.frame_step hmi ctx.accounts) h ⟨rfl, .refl _ _⟩

/-! ## What the relay forwards -/

/-- `accounts` with slot `dst` overwritten by `f` of the account at slot `src`. -/
def copySlot (f : AccountInfo → AccountInfo) (dst src : Nat) (accounts : List AccountInfo) :
    List AccountInfo :=
  match accounts[src]? with
  | some a => accounts.set dst (f a)
  | none => accounts

/-- The list the relay forwards for an operation other than an init when the chain has an
`OpenOrdersPda`: the open orders account, marked as signer, in the owner's slot; for a prune,
the open orders account at slot 4 in slot 5, as its own owner. -/
def MarketInstruction.relayed (mi : MarketInstruction) (accounts : List AccountInfo) :
    List AccountInfo :=
  match mi with
  | .newOrderV3 _ => copySlot preparePda 7 1 accounts
  | .cancelOrderV2 _ | .cancelOrderByClientIdV2 _ => copySlot preparePda 4 3 accounts
  | .settleFunds => copySlot preparePda 2 1 accounts
  | .closeOpenOrders => copySlot preparePda 1 0 accounts
  | .prune _ => copySlot id 5 4 accounts
  | _ => accounts

theorem MarketInstruction.relayed_of_signSlots {mi : MarketInstruction} {m u p : Nat}
    (h : mi.signSlots = some (m, u, p)) (l : List AccountInfo) :
    mi.relayed l = copySlot preparePda u p l ∧ u ≠ p := by
  cases mi <;> simp only [signSlots, Option.some.injEq, Prod.mk.injEq, reduceCtorEq] at h <;>
    obtain ⟨rfl, rfl, rfl⟩ := h <;> exact ⟨rfl, by decide⟩

/-- Copying a slot into another is idempotent: once more over its own result, it gives the
same list. -/
theorem copySlot_set {f : AccountInfo → AccountInfo} {dst src : Nat} (hne : dst ≠ src)
    {rest l : List AccountInfo} (hl : l = rest ∨ l = copySlot f dst src rest) {a : AccountInfo}
    (ha : l[src]? = some a) : l.set dst (f a) = copySlot f dst src rest := by
  rcases hl with rfl | rfl
  · simp only [copySlot, ha]
  · cases hr : rest[src]? with
    | none => simp [copySlot, hr] at ha
    | some x =>
      simp only [copySlot, hr, List.getElem?_set_ne hne, Option.some.injEq] at ha ⊢
      rw [← ha]
      exact List.set_set _ _ _ _

/-- A hook of `OpenOrdersPda` for an operation other than an init, over the caller's list or
over what an earlier `OpenOrdersPda` left of it, leaves `MarketInstruction.relayed`. -/
theorem OpenOrdersPda.hooks_call_relayed (self : OpenOrdersPda) {ctx : Context}
    {mi : MarketInstruction} {r : Context × MarketInstruction} (hmi : mi ≠ .initOpenOrders)
    {rest : List AccountInfo} (hacc : ctx.accounts = rest ∨ ctx.accounts = mi.relayed rest)
    (h : self.hooks.call (ctx, mi) = .ok r) : r.1.accounts = mi.relayed rest := by
  rcases self.hooks_call_cases ctx h with ⟨_, _, _, c, hs, hc, rfl⟩ | ⟨c, rfl, -, -⟩ |
    ⟨ix, c, rfl, hc, rfl⟩ | ⟨l, c, rfl, hc, rfl⟩ | ⟨hmi', rfl⟩
  · obtain ⟨_, _, _, -, -, hp, -, -, rfl⟩ := self.signAsPda_ok hc
    obtain ⟨hrel, hne⟩ := MarketInstruction.relayed_of_signSlots hs rest
    rw [hrel] at hacc ⊢
    exact copySlot_set hne hacc hp
  · exact absurd rfl hmi
  · obtain ⟨_, _, _, _, _, -, h1, -, -, -, -, -, rfl⟩ := self.newOrderV3_ok hc
    exact copySlot_set (by decide) hacc h1
  · obtain ⟨_, h4, -, -, rfl⟩ := OpenOrdersPda.prune_ok hc
    exact copySlot_set (by decide) hacc h4
  · rcases hmi' with ⟨_, rfl⟩ | ⟨_, rfl⟩ | ⟨_, rfl⟩ <;> exact hacc.elim id id

theorem Mw.hooks_call_relayed (m : Mw) {ctx : Context} {mi : MarketInstruction}
    {r : Context × MarketInstruction} (hmi : mi ≠ .initOpenOrders) {rest : List AccountInfo}
    (hacc : ctx.accounts = rest ∨ ctx.accounts = mi.relayed rest)
    (h : m.hooks.call (ctx, mi) = .ok r) :
    r.1.accounts = if m.isPda then mi.relayed rest else ctx.accounts := by
  cases hm : m.isPda with
  | false => rw [hooks_call_of_not_pda hm h]; rfl
  | true =>
    match m, hm with
    | .openOrdersPda p, _ => exact p.hooks_call_relayed hmi hacc h

/-- Along the hooks of a chain, the working list becomes `MarketInstruction.relayed` at the
first `OpenOrdersPda` and stays so. -/
theorem foldlM_relayed {mi : MarketInstruction} (hmi : mi ≠ .initOpenOrders) {rest : List AccountInfo} :
    ∀ (l : List Mw) {ctx : Context} {c : Context × MarketInstruction},
      (ctx.accounts = rest ∨ ctx.accounts = mi.relayed rest) →
      (l.map Mw.hooks).foldlM (fun s h => h.call s) (ctx, mi) = .ok c →
      c.1.accounts = if l.any Mw.isPda then mi.relayed rest else ctx.accounts
  | [], _, _, _, h => by cases h; rfl
  | m :: l, ctx, c, hacc, h => by
    rw [List.map_cons, List.foldlM_cons, Except.bind_eq_ok] at h
    obtain ⟨⟨c₁, mi₁⟩, h₁, h⟩ := h
    cases m.hooks_call_payload h₁
    have hc₁ := m.hooks_call_relayed hmi hacc h₁
    have hacc₁ : c₁.accounts = rest ∨ c₁.accounts = mi.relayed rest := by
      rw [hc₁]; split
      · exact .inr rfl
      · exact hacc
    rw [foldlM_relayed hmi l hacc₁ h, hc₁, List.any_cons]
    cases m.isPda <;> cases l.any Mw.isPda <;> rfl

/-- What the relay forwards, for any chain of the crate's middlewares and every operation but
an init: the caller's working list if the chain has no `OpenOrdersPda`; otherwise that list
with the open orders account, marked as signer, in the owner's slot (7 for a new order, 4
for the cancels, 2 for a settle, 1 for a close) and, for a prune, the open orders account
at slot 4 in slot 5.  Every other slot is the caller's, and an `OpenOrdersPda` registered
twice relays the same list as one. -/
theorem run_relay_accounts {W : Type} (chain : List Mw) (codec : Codec) (host : Host W)
    (programId : Pubkey) (dex : AccountInfo) (rest : List AccountInfo) (data : Bytes) (w : W) :
    ∀ ix accs seeds, Event.call .relay (.invokeSigned ix accs seeds) ∈
        (MarketProxy.run ⟨chain.map Mw.toMiddleware⟩ codec host programId (dex :: rest) data
          w).events →
      ∃ mi, MarketProxy.decode ⟨chain.map Mw.toMiddleware⟩ codec data = some mi ∧
        (mi ≠ .initOpenOrders → accs = if chain.any Mw.isPda then mi.relayed rest else rest) := by
  intro ix accs seeds hev
  obtain ⟨ctx, mi, hp, hc⟩ := run_relay _ codec host programId _ data w hev
  simp only [Call.invokeSigned.injEq] at hc
  obtain ⟨-, rfl, -⟩ := hc
  refine ⟨mi, MarketProxy.decode_of_prepare hp, fun hmi => ?_⟩
  obtain ⟨_, _, _, _, mi', _, _, he, -, hpre, hu, -, -, hf⟩ := prepare_ok_some _ _ _ _ hp
  cases he
  cases Option.some.inj (hu.symm.trans ((MarketProxy.decode_of_preParse hpre).symm.trans
    (MarketProxy.decode_of_prepare hp)))
  obtain ⟨chain', rfl, hany, -⟩ := preParse_chain hpre
  rw [← hany]
  exact foldlM_relayed hmi chain' (.inl rfl) hf

/-- A settle of the sample accounts through `OpenOrdersPda` alone, only the owner at slot 2
signing: the relay forwards the working list with the open orders account of slot 1 (key 2),
marked as signer, in the owner's slot. -/
theorem run_relay_accounts_settleFunds :
    Event.call .relay (.invokeSigned
        (relayInstruction (callerAccounts 2 [1, 2, 2, 4, 5, 6, 7, 8, 9, 10]) [0, 5, 0, 0, 0])
        (callerAccounts 2 [1, 2, 2, 4, 5, 6, 7, 8, 9, 10])
        [openOrdersAuthority serumDexProgramId (keyOf 1) (keyOf 3) 0]) ∈
      (MarketProxy.run ⟨[Mw.openOrdersPda .new].map Mw.toMiddleware⟩ sampleCodec
        (fun _ (w : Unit) => .ok w) serumDexProgramId (dexAccount :: callerAccounts 2 (List.range' 1 10))
        [1, 0, 5, 0, 0, 0] ()).events ∧
    ∃ mi, MarketProxy.decode ⟨[Mw.openOrdersPda .new].map Mw.toMiddleware⟩ sampleCodec
        [1, 0, 5, 0, 0, 0] = some mi ∧
      (mi ≠ .initOpenOrders →
        callerAccounts 2 [1, 2, 2, 4, 5, 6, 7, 8, 9, 10] =
          if [Mw.openOrdersPda .new].any Mw.isPda then mi.relayed (callerAccounts 2 (List.range' 1 10))
          else callerAccounts 2 (List.range' 1 10)) := by
  refine ⟨?h, run_relay_accounts _ _ _ _ _ _ _ _ _ _ _ ?h⟩
  case h => decide!

/-- An init, with one `OpenOrdersPda` among loggers and referral checks.  The relay forwards
the working list without its first two accounts, with slot 1, where the caller placed the
owner, holding the open orders account of slot 0 marked as signer, and slot 4, the market
authority, marked as signer.  It is signed with the owner's open-orders authority path and
the market's init-authority path, with the bumps the `instruction` hook left.  So the owner,
who had to sign, is not forwarded at slot 1: the relayed list holds the open orders account
twice. -/
theorem run_relay_init {W : Type} {pre post : List Mw} (hpre : ∀ m ∈ pre, m.isPda = false)
    (hpost : ∀ m ∈ post, m.isPda = false) (p : OpenOrdersPda) (codec : Codec) (host : Host W)
    (programId : Pubkey) (dex : AccountInfo) (rest : List AccountInfo) (data : Bytes) (w : W)
    {ix : Instruction} {accs : List AccountInfo} {seeds : Seeds}
    (hinit : MarketProxy.decode ⟨(pre ++ .openOrdersPda p :: post).map Mw.toMiddleware⟩ codec data =
      some .initOpenOrders)
    (h : Event.call .relay (.invokeSigned ix accs seeds) ∈
      (MarketProxy.run ⟨(pre ++ .openOrdersPda p :: post).map Mw.toMiddleware⟩ codec host
        programId (dex :: rest) data w).events) :
    ∃ p' d oo user market ma, p.instruction data = .ok (p', d) ∧ rest[2]? = some oo ∧
      rest[3]? = some user ∧ rest[4]? = some market ∧ rest[6]? = some ma ∧ user.isSigner = true ∧
      ix = relayInstruction accs (codec.pack .initOpenOrders) ∧
      accs = ((rest.drop 2).set 1 (preparePda oo)).set 4 (preparePda ma) ∧
      seeds = [openOrdersAuthority dex.key market.key user.key p'.bump,
        openOrdersInitAuthority dex.key market.key p'.bumpInit] := by
  obtain ⟨ctx, mi, hp, hc⟩ := run_relay _ codec host programId _ data w h
  cases Option.some.inj ((MarketProxy.decode_of_prepare hp).symm.trans hinit)
  obtain ⟨_, _, d, p', -, -, hacc, -, hd, -, -, -, hcall⟩ := prepare_single_pda hpre hpost hp
  cases hacc
  simp only [Call.invokeSigned.injEq] at hc
  obtain ⟨rfl, rfl, rfl⟩ := hc
  obtain ⟨c, hq, he⟩ := Except.map_eq_ok.mp hcall
  cases he
  obtain ⟨oo, user, market, ma, h2, h3, h4, h6, hsig, rfl⟩ := p'.initOpenOrders_ok hq
  exact ⟨p', d, oo, user, market, ma, hd, h2, h3, h4, h6, hsig, rfl, rfl, rfl⟩

/-- An init with bumps 5 and 6 of the sample accounts through `OpenOrdersPda` alone, only the
owner at slot 3 signing: the relay forwards the last five working accounts with the open
orders account (key 3) in the owner's slot 1 and the market authority (key 7) at slot 4, both
marked as signer, signed with the bumps 5 and 6. -/
theorem run_relay_init_signed :
    MarketProxy.decode ⟨([] ++ Mw.openOrdersPda .new :: []).map Mw.toMiddleware⟩ sampleCodec
      [0, 5, 6, 0, 15, 0, 0, 0] = some .initOpenOrders ∧
    Event.call .relay (.invokeSigned
        (relayInstruction [callerAccount false 3, callerAccount true 3, callerAccount false 5,
          callerAccount false 6, callerAccount true 7] [0, 15, 0, 0, 0])
        [callerAccount false 3, callerAccount true 3, callerAccount false 5, callerAccount false 6,
          callerAccount true 7]
        [openOrdersAuthority serumDexProgramId (keyOf 5) (keyOf 4) 5,
          openOrdersInitAuthority serumDexProgramId (keyOf 5) 6]) ∈
      (MarketProxy.run ⟨([] ++ Mw.openOrdersPda .new :: []).map Mw.toMiddleware⟩ sampleCodec
        (fun _ (w : Unit) => .ok w) serumDexProgramId (dexAccount :: callerAccounts 3 (List.range' 1 7))
        [0, 5, 6, 0, 15, 0, 0, 0] ()).events ∧
    ∃ (p' : OpenOrdersPda) (d : Bytes) (oo user market ma : AccountInfo),
      OpenOrdersPda.new.instruction [0, 5, 6, 0, 15, 0, 0, 0] = .ok (p', d) ∧
      (callerAccounts 3 (List.range' 1 7))[2]? = some oo ∧
      (callerAccounts 3 (List.range' 1 7))[3]? = some user ∧
      (callerAccounts 3 (List.range' 1 7))[4]? = some market ∧
      (callerAccounts 3 (List.range' 1 7))[6]? = some ma ∧ user.isSigner = true ∧
      relayInstruction [callerAccount false 3, callerAccount true 3, callerAccount false 5,
          callerAccount false 6, callerAccount true 7] [0, 15, 0, 0, 0] =
        relayInstruction [callerAccount false 3, callerAccount true 3, callerAccount false 5,
          callerAccount false 6, callerAccount true 7] (sampleCodec.pack .initOpenOrders) ∧
      [callerAccount false 3, callerAccount true 3, callerAccount false 5, callerAccount false 6,
          callerAccount true 7] =
        (((callerAccounts 3 (List.range' 1 7)).drop 2).set 1 (preparePda oo)).set 4 (preparePda ma) ∧
      [openOrdersAuthority serumDexProgramId (keyOf 5) (keyOf 4) 5,
          openOrdersInitAuthority serumDexProgramId (keyOf 5) 6] =
        [openOrdersAuthority serumDexProgramId market.key user.key p'.bump,
          openOrdersInitAuthority serumDexProgramId market.key p'.bumpInit] := by
  refine ⟨?hinit, ?h, run_relay_init (by simp) (by simp) _ _ _ _ _ _ _ _ ?hinit ?h⟩
  case hinit => decide!
  case h => decide!

end PermissionedDex
