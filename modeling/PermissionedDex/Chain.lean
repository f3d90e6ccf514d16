import PermissionedDex.Run

/-!
# Chains of this crate's middlewares

A chain is a `List Mw` in registration order.  `Logger` and `ReferralFees` keep the
default `instruction` hook, and their dispatched hooks, when they succeed, leave the
context as it was (`Mw.hooks_call_of_not_pda`); no hook of the crate rewrites the
payload (`Mw.hooks_call_payload`).  So:

* `preParse_chain`: the pre-parse leaves the hooks of a chain with the same loggers and
  referral checks, and an `OpenOrdersPda` exactly when the first has one;
* `prepare_chain`: whatever the chain, the relayed context comes from folding the hooks
  of the chain's middlewares (as their `instruction` hooks left them) over the decoded
  instruction, which is relayed unchanged (`foldlM_payload`);
* `prepare_single_pda`: with one `OpenOrdersPda` among loggers and referral checks, it
  is that one hook applied to the fresh context.

`MarketInstruction.signSlots` is the table of the four hooks that are `signAsPda`.  The
sample inputs at the end are those of the concrete runs of the later modules.
-/

namespace PermissionedDex

open Traced

/-- The slots `(market, user, pda)` of the four hooks that only move authority to the PDA. -/
def MarketInstruction.signSlots : MarketInstruction → Option (Nat × Nat × Nat)
  | .cancelOrderV2 _ => some (0, 4, 3)
  | .cancelOrderByClientIdV2 _ => some (0, 4, 3)
  | .settleFunds => some (0, 2, 1)
  | .closeOpenOrders => some (3, 1, 0)
  | _ => none

namespace OpenOrdersPda

variable (self : OpenOrdersPda) (ctx : Context)

theorem hooks_call_of_signSlots {mi : MarketInstruction} {m u p : Nat}
    (h : mi.signSlots = some (m, u, p)) :
    self.hooks.call (ctx, mi) = (·, mi) <$> self.signAsPda m u p ctx := by
  cases mi <;> simp only [MarketInstruction.signSlots, Option.some.injEq, Prod.mk.injEq,
    reduceCtorEq] at h <;> obtain ⟨rfl, rfl, rfl⟩ := h <;>
    simp only [Hooks.call, hooks, cancelOrderV2, cancelOrderByClientIdV2, settleFunds,
      closeOpenOrders] <;> cases self.signAsPda _ _ _ ctx <;> rfl

/-- What a hook of an `OpenOrdersPda` that succeeded did, by arm: `signAsPda` at the slots of
`signSlots`, `init_open_orders`, `new_order_v3`, `prune`, or nothing; in every arm the
payload is given back as it came. -/
theorem hooks_call_cases {mi : MarketInstruction} {r : Context × MarketInstruction}
    (h : self.hooks.call (ctx, mi) = .ok r) :
    (∃ m u p c, mi.signSlots = some (m, u, p) ∧ self.signAsPda m u p ctx = .ok c ∧ r = (c, mi)) ∨
    (∃ c, mi = .initOpenOrders ∧ self.initOpenOrders ctx = .ok c ∧ r = (c, mi)) ∨
    (∃ ix c, mi = .newOrderV3 ix ∧ self.newOrderV3 ctx ix = .ok (c, ix) ∧ r = (c, mi)) ∨
    (∃ l c, mi = .prune l ∧ prune ctx l = .ok (c, l) ∧ r = (c, mi)) ∨
    (((∃ l, mi = .consumeEvents l) ∨ (∃ l, mi = .consumeEventsPermissioned l) ∨
      ∃ d, mi = .other d) ∧ r = (ctx, mi)) := by
  cases hs : mi.signSlots with
  | some s =>
    obtain ⟨m, u, p⟩ := s
    rw [hooks_call_of_signSlots self ctx hs] at h
    obtain ⟨c, hc, rfl⟩ := Except.map_eq_ok.mp h
    exact .inl ⟨m, u, p, c, rfl, hc, rfl⟩
  | none =>
    cases mi with
    | initOpenOrders =>
      obtain ⟨c, hc, rfl⟩ := Except.map_eq_ok.mp h
      exact .inr (.inl ⟨c, rfl, hc, rfl⟩)
    | newOrderV3 ix =>
      obtain ⟨⟨c, ix'⟩, hq, rfl⟩ := Except.map_eq_ok.mp h
      obtain ⟨-, -, -, -, -, -, -, -, -, -, -, rfl, -⟩ := newOrderV3_ok self hq
      exact .inr (.inr (.inl ⟨ix', c, rfl, hq, rfl⟩))
    | prune l =>
      obtain ⟨⟨c, l'⟩, hq, rfl⟩ := Except.map_eq_ok.mp h
      obtain ⟨-, -, -, rfl, -⟩ := prune_ok hq
      exact .inr (.inr (.inr (.inl ⟨l', c, rfl, hq, rfl⟩)))
    | consumeEvents l => cases h; exact .inr (.inr (.inr (.inr ⟨.inl ⟨l, rfl⟩, rfl⟩)))
    | consumeEventsPermissioned l => cases h; exact .inr (.inr (.inr (.inr ⟨.inr (.inl ⟨l, rfl⟩), rfl⟩)))
    | other d => cases h; exact .inr (.inr (.inr (.inr ⟨.inr (.inr ⟨d, rfl⟩), rfl⟩)))
    | cancelOrderV2 _ | cancelOrderByClientIdV2 _ | settleFunds | closeOpenOrders => cases hs

/-- Every hook of an `OpenOrdersPda` gives the payload back as it got it. -/
theorem hooks_call_payload {s r : Context × MarketInstruction} (h : self.hooks.call s = .ok r) :
    r.2 = s.2 := by
  obtain ⟨ctx, mi⟩ := s
  rcases hooks_call_cases self ctx h with ⟨-, -, -, -, -, -, rfl⟩ | ⟨-, -, -, rfl⟩ | ⟨-, -, -, -, rfl⟩ |
    ⟨-, -, -, -, rfl⟩ | ⟨-, rfl⟩ <;> rfl

end OpenOrdersPda

theorem ReferralFees.hooks_call_of_ne (rf : ReferralFees) (ctx : Context) {mi : MarketInstruction}
    (h : mi ≠ .settleFunds) : rf.hooks.call (ctx, mi) = .ok (ctx, mi) := by
  cases mi <;> first | rfl | exact absurd rfl h

namespace Mw

theorem instruction_of_not_pda {m : Mw} (h : m.isPda = false) (data : Bytes) :
    m.instruction data = .ok (m, data) := by
  cases m <;> first | rfl | cases h

/-- A logger or a referral check that succeeds leaves the context and the payload alone. -/
theorem hooks_call_of_not_pda {m : Mw} (h : m.isPda = false) {s r : Context × MarketInstruction}
    (hc : m.hooks.call s = .ok r) : r = s := by
  obtain ⟨ctx, mi⟩ := s
  match m, h with
  | .logger, _ => simpa [hooks, Logger.hooks] using hc.symm
  | .referralFees rf, _ =>
    by_cases hs : mi = .settleFunds
    · subst hs
      obtain ⟨_, hq, rfl⟩ := Except.map_eq_ok.mp hc
      obtain ⟨-, -, -, rfl⟩ := (ReferralFees.settleFunds_eq_ok rf).mp hq
      rfl
    · rw [hooks, ReferralFees.hooks_call_of_ne rf ctx hs] at hc
      cases hc; rfl

theorem hooks_call_payload (m : Mw) {s r : Context × MarketInstruction} (hc : m.hooks.call s = .ok r) :
    r.2 = s.2 := by
  cases hm : m.isPda with
  | false => rw [hooks_call_of_not_pda hm hc]
  | true =>
    match m, hm with
    | .openOrdersPda p, _ => exact OpenOrdersPda.hooks_call_payload p hc

end Mw

/-! ## The pre-parse of a chain -/

theorem preParse_append (i : Nat) (l₁ l₂ : List MarketMiddleware) (data : Bytes) :
    (preParse i (l₁ ++ l₂) data).result = (preParse i l₁ data).result >>= fun r =>
      (fun rs => (rs.1, r.2 ++ rs.2)) <$> (preParse (i + l₁.length) l₂ r.1).result := by
  induction l₁ generalizing i data with
  | nil =>
    simp only [List.nil_append, List.length_nil, Nat.add_zero]
    show _ = (Except.ok (data, []) >>= _)
    simp only [Except.ok_bind, List.nil_append]
    cases (preParse i l₂ data).result <;> rfl
  | cons mw l₁ ih =>
    cases hm : mw.instruction data with
    | error e => rw [List.cons_append, preParse_cons_error hm, preParse_cons_error hm]; rfl
    | ok r =>
      rw [List.cons_append, preParse_cons_ok hm, preParse_cons_ok hm]
      dsimp only
      rw [ih]
      simp only [List.length_cons, Nat.add_comm l₁.length 1, ← Nat.add_assoc]
      cases (preParse (i + 1) l₁ r.1).result with
      | error e => rfl
      | ok q =>
        simp only [Except.ok_bind, Except.map_ok]
        cases (preParse (i + 1 + l₁.length) l₂ q.1).result <;> rfl

/-- Loggers and referral checks pass the data on untouched. -/
theorem preParse_pda_free {chain : List Mw} (h : ∀ m ∈ chain, m.isPda = false) (i : Nat)
    (data : Bytes) :
    (preParse i (chain.map Mw.toMiddleware) data).result = .ok (data, chain.map Mw.hooks) := by
  induction chain generalizing i with
  | nil => rfl
  | cons m chain ih =>
    have hm : m.toMiddleware.instruction data = .ok (data, m.hooks) := by
      simp [Mw.toMiddleware, Mw.instruction_of_not_pda (h m (.head _))]
    rw [List.map_cons, preParse_result_cons_ok hm,
      ih (fun m' h' => h m' (List.mem_cons_of_mem _ h'))]
    rfl

/-- What `Mw.instruction` leaves: a middleware of the same kind, and the same one unless it is
an `OpenOrdersPda`. -/
theorem Mw.instruction_ok {m m' : Mw} {data d : Bytes} (h : m.instruction data = .ok (m', d)) :
    m'.isPda = m.isPda ∧ (m.isPda = false → m' = m) := by
  match m with
  | .openOrdersPda s =>
    obtain ⟨_, -, he⟩ := Except.map_eq_ok.mp h
    cases he; exact ⟨rfl, fun h => nomatch h⟩
  | .logger => cases h; exact ⟨rfl, fun _ => rfl⟩
  | .referralFees _ => cases h; exact ⟨rfl, fun _ => rfl⟩

/-- The hooks a chain's pre-parse leaves are those of a chain with an `OpenOrdersPda` exactly
when the first has one, and with the same loggers and referral checks as the first. -/
theorem preParse_chain {chain : List Mw} {i : Nat} {data d : Bytes} {hs : List Hooks}
    (h : (preParse i (chain.map Mw.toMiddleware) data).result = .ok (d, hs)) :
    ∃ chain' : List Mw, hs = chain'.map Mw.hooks ∧ chain'.any Mw.isPda = chain.any Mw.isPda ∧
      (∀ m ∈ chain', m.isPda = false → m ∈ chain) ∧ ∀ m ∈ chain, m.isPda = false → m ∈ chain' := by
  induction chain generalizing i data d hs with
  | nil => cases h; exact ⟨[], rfl, rfl, (fun _ h => nomatch h), fun _ h => nomatch h⟩
  | cons m chain ih =>
    cases hm : m.instruction data with
    | error e =>
      have : m.toMiddleware.instruction data = .error e := by simp [Mw.toMiddleware, hm]
      rw [List.map_cons, preParse_cons_error this] at h; cases h
    | ok r =>
      have : m.toMiddleware.instruction data = .ok (r.2, r.1.hooks) := by simp [Mw.toMiddleware, hm]
      rw [List.map_cons, preParse_result_cons_ok this, Except.map_eq_ok] at h
      obtain ⟨q, hq, hqe⟩ := h
      obtain ⟨chain', hc, hany, hkeep, hkept⟩ := ih hq
      cases hqe
      obtain ⟨hpda, hsame⟩ := Mw.instruction_ok hm
      refine ⟨r.1 :: chain', by rw [hc]; rfl, by rw [List.any_cons, List.any_cons, hpda, hany],
        fun m' hm' hp => ?_, fun m' hm' hp => ?_⟩
      · rcases List.mem_cons.mp hm' with rfl | hm'
        · exact hsame (hpda ▸ hp) ▸ List.mem_cons_self _ _
        · exact List.mem_cons_of_mem _ (hkeep m' hm' hp)
      · rcases List.mem_cons.mp hm' with rfl | hm'
        · exact (hsame hp).symm ▸ List.mem_cons_self _ _
        · exact List.mem_cons_of_mem _ (hkept m' hm' hp)

/-- The instruction `run` decodes: `MarketInstruction::unpack` of what the `instruction`
hooks left of the data, when they all passed. -/
def MarketProxy.decode (self : MarketProxy) (codec : Codec) (data : Bytes) : Option MarketInstruction :=
  match (preParse 0 self.middlewares data).result with
  | .ok r => codec.unpack r.1
  | .error _ => none

theorem MarketProxy.decode_of_preParse {self : MarketProxy} {codec : Codec} {data d : Bytes}
    {hs : List Hooks} (h : (preParse 0 self.middlewares data).result = .ok (d, hs)) :
    self.decode codec data = codec.unpack d := by
  rw [decode, h]

/-- With one `OpenOrdersPda` among loggers and referral checks, the pre-parse is that
middleware's `instruction` hook on the raw data. -/
theorem preParse_single_pda {pre post : List Mw} (hpre : ∀ m ∈ pre, m.isPda = false)
    (hpost : ∀ m ∈ post, m.isPda = false) {p : OpenOrdersPda} {data d : Bytes} {hs : List Hooks}
    (h : (preParse 0 ((pre ++ .openOrdersPda p :: post).map Mw.toMiddleware) data).result =
      .ok (d, hs)) :
    ∃ p', p.instruction data = .ok (p', d) ∧
      hs = pre.map Mw.hooks ++ p'.hooks :: post.map Mw.hooks := by
  rw [List.map_append, preParse_append, preParse_pda_free hpre, Except.ok_bind] at h
  cases hp : p.instruction data with
  | error e =>
    have : (Mw.openOrdersPda p).toMiddleware.instruction data = .error e := by
      simp [Mw.toMiddleware, Mw.instruction, hp]
    rw [List.map_cons, preParse_cons_error this] at h; cases h
  | ok r =>
    have : (Mw.openOrdersPda p).toMiddleware.instruction data = .ok (r.2, r.1.hooks) := by
      simp [Mw.toMiddleware, Mw.instruction, hp]; rfl
    rw [List.map_cons, preParse_result_cons_ok this, preParse_pda_free hpost] at h
    cases h
    exact ⟨r.1, rfl, rfl⟩

/-! ## The dispatch of a chain -/

/-- A fold of loggers and referral checks that succeeds changes nothing. -/
theorem foldlM_pda_free {l : List Mw} (h : ∀ m ∈ l, m.isPda = false) {s r : Context × MarketInstruction}
    (hf : (l.map Mw.hooks).foldlM (fun s h => h.call s) s = .ok r) : r = s := by
  refine (foldlM_inv Hooks.call (· = s) ?_ hf rfl)
  intro hk hk' s₁ s₂ hc hs
  obtain ⟨m, hm, rfl⟩ := List.mem_map.mp hk'
  exact (Mw.hooks_call_of_not_pda (h m hm) hc).trans hs

theorem foldlM_single_pda {pre post : List Mw} (hpre : ∀ m ∈ pre, m.isPda = false)
    (hpost : ∀ m ∈ post, m.isPda = false) {h : Hooks} {s r : Context × MarketInstruction}
    (hf : (pre.map Mw.hooks ++ h :: post.map Mw.hooks).foldlM (fun s h => h.call s) s = .ok r) :
    h.call s = .ok r := by
  rw [List.foldlM_append, Except.bind_eq_ok] at hf
  obtain ⟨s₁, h₁, hf⟩ := hf
  rw [foldlM_pda_free hpre h₁, List.foldlM_cons, Except.bind_eq_ok] at hf
  obtain ⟨s₂, h₂, hf⟩ := hf
  rwa [← foldlM_pda_free hpost hf] at h₂

/-- No hook of the crate rewrites the payload: a fold of a chain's hooks keeps it. -/
theorem foldlM_payload {l : List Mw} {s r : Context × MarketInstruction}
    (hf : (l.map Mw.hooks).foldlM (fun s h => h.call s) s = .ok r) : r.2 = s.2 :=
  foldlM_inv Hooks.call (fun t => t.2 = s.2) (by
    intro h hm t t' hc ht
    obtain ⟨m, -, rfl⟩ := List.mem_map.mp hm
    exact (Mw.hooks_call_payload m hc).trans ht) hf rfl

/-- Whatever the chain, the relayed context is the fold of a chain's hooks over the
decoded instruction, and the instruction is relayed as it was decoded. -/
theorem prepare_chain {chain : List Mw} {codec : Codec} {programId : Pubkey}
    {accounts : List AccountInfo} {data : Bytes} {ctx : Context} {ix : MarketInstruction}
    (h : (MarketProxy.prepare ⟨chain.map Mw.toMiddleware⟩ codec programId accounts data).result =
      .ok (some (ctx, ix))) :
    ∃ (dex : AccountInfo) (rest : List AccountInfo) (d : Bytes) (chain' : List Mw) (hk : Hook)
      (n : Nat), accounts = dex :: rest ∧ dex.key = serumDexProgramId ∧
      codec.unpack d = some ix ∧ ix.arm = some (hk, n) ∧ n ≤ rest.length ∧
      (chain'.map Mw.hooks).foldlM (fun s h => h.call s) (Context.new programId dex.key rest, ix) =
        .ok (ctx, ix) := by
  obtain ⟨dex, rest, d, hs, mi, hk, n, rfl, hd, hp, hu, ha, hl, hf⟩ := prepare_ok_some _ _ _ _ h
  obtain ⟨chain', rfl, -⟩ := preParse_chain hp
  have hpay : ix = mi := foldlM_payload hf
  subst hpay
  exact ⟨dex, rest, d, chain', hk, n, rfl, hd, hu, ha, hl, hf⟩

theorem MarketProxy.decode_eq_some {self : MarketProxy} {codec : Codec} {data : Bytes}
    {mi : MarketInstruction} (h : self.decode codec data = some mi) :
    ∃ d hs, (preParse 0 self.middlewares data).result = .ok (d, hs) ∧ codec.unpack d = some mi := by
  unfold decode at h
  split at h
  · rename_i r hr
    exact ⟨r.1, r.2, hr, h⟩
  · cases h

/-- What a chain relays is what it decoded: no hook of the crate rewrites the payload. -/
theorem MarketProxy.decode_of_prepare {chain : List Mw} {codec : Codec} {programId : Pubkey}
    {accounts : List AccountInfo} {data : Bytes} {ctx : Context} {ix : MarketInstruction}
    (h : (MarketProxy.prepare ⟨chain.map Mw.toMiddleware⟩ codec programId accounts data).result =
      .ok (some (ctx, ix))) :
    MarketProxy.decode ⟨chain.map Mw.toMiddleware⟩ codec data = some ix := by
  obtain ⟨dex, rest, d, hs, mi, -, -, -, -, hp, hu, -, -, hf⟩ := prepare_ok_some _ _ _ _ h
  obtain ⟨chain', rfl, -⟩ := preParse_chain hp
  have hpay : ix = mi := foldlM_payload hf
  rw [decode_of_preParse hp, hu, hpay]

/-- With one `OpenOrdersPda` among loggers and referral checks, the relayed context is that
middleware's hook applied to the fresh context. -/
theorem prepare_single_pda {pre post : List Mw} (hpre : ∀ m ∈ pre, m.isPda = false)
    (hpost : ∀ m ∈ post, m.isPda = false) {p : OpenOrdersPda} {codec : Codec}
    {programId : Pubkey} {accounts : List AccountInfo} {data : Bytes} {ctx : Context}
    {ix : MarketInstruction}
    (h : (MarketProxy.prepare ⟨(pre ++ .openOrdersPda p :: post).map Mw.toMiddleware⟩ codec
      programId accounts data).result = .ok (some (ctx, ix))) :
    ∃ dex rest d p' hk n, accounts = dex :: rest ∧ dex.key = serumDexProgramId ∧
      p.instruction data = .ok (p', d) ∧ codec.unpack d = some ix ∧ ix.arm = some (hk, n) ∧
      n ≤ rest.length ∧ p'.hooks.call (Context.new programId dex.key rest, ix) = .ok (ctx, ix) := by
  obtain ⟨dex, rest, d, hs, mi, hk, n, rfl, hd, hp, hu, ha, hl, hf⟩ := prepare_ok_some _ _ _ _ h
  obtain ⟨p', hp', rfl⟩ := preParse_single_pda hpre hpost hp
  have hc := foldlM_single_pda hpre hpost hf
  have hpay := OpenOrdersPda.hooks_call_payload p' hc
  simp only at hpay
  subst hpay
  exact ⟨dex, rest, d, p', hk, n, rfl, hd, hp', hu, ha, hl, hc⟩

/-! ## Sample inputs

The concrete runs that show the results of the later modules at work use these inputs: caller
accounts with distinct keys of which only the owner signs, and a codec that decodes exactly
the bytes serum's `MarketInstruction::pack` gives the operations they relay. -/

/-- The key whose 32 bytes are all `k`. -/
def keyOf (k : Nat) : Pubkey := ⟨List.replicate 32 k.toUInt8, List.length_replicate _ _⟩

/-- The DEX program account, first of the accounts of every sample run. -/
def dexAccount : AccountInfo := ⟨serumDexProgramId, false, false, serumDexProgramId, []⟩

/-- A writable caller account of key `keyOf k`, holding 64 zero bytes: an SPL token account
owned by `keyOf 0`. -/
def callerAccount (signer : Bool) (k : Nat) : AccountInfo :=
  ⟨keyOf k, signer, true, splTokenId, List.replicate 64 0⟩

/-- Caller accounts of the keys `keys`, of which only the one at slot `owner` signs. -/
def callerAccounts (owner : Nat) (keys : List Nat) : List AccountInfo :=
  keys.mapIdx fun i k => callerAccount (i == owner) k

/-- `NewOrderInstructionV3` packed as `MarketInstruction::pack` does: the version byte 0, the
tag 10 as a little-endian `u32`, then the fields in order, each enum as a `u32`, each number
little-endian, the `i64` `max_ts` in two's complement. -/
def NewOrderInstructionV3.pack (o : NewOrderInstructionV3) : Bytes :=
  0 :: leBytes 4 10 ++
    leBytes 4 (match o.side with | .bid => 0 | .ask => 1) ++
    leBytes 8 o.limitPrice.get.toNat ++ leBytes 8 o.maxCoinQty.get.toNat ++
    leBytes 8 o.maxNativePcQtyIncludingFees.get.toNat ++
    leBytes 4 (match o.selfTradeBehavior with
      | .decrementTake => 0 | .cancelProvide => 1 | .abortTransaction => 2) ++
    leBytes 4 (match o.orderType with | .limit => 0 | .immediateOrCancel => 1 | .postOnly => 2) ++
    leBytes 8 o.clientOrderId.toNat ++ leBytes 2 o.limit.toNat ++
    leBytes 8 (o.maxTs % 18446744073709551616).toNat

/-- A limit bid for one lot at price 1, paying at most 100 quote units. -/
def sampleBid : NewOrderInstructionV3 :=
  ⟨.bid, ⟨1, by decide⟩, ⟨1, by decide⟩, ⟨100, by decide⟩, .decrementTake, .limit, 0, 10,
    9223372036854775807⟩

/-- A limit ask of 3 lots at price 1. -/
def sampleAsk : NewOrderInstructionV3 := { sampleBid with side := .ask, maxCoinQty := ⟨3, by decide⟩ }

/-- A market account whose coin lot size, the `u64` at bytes `349..357`, is 10. -/
def sampleMarket : AccountInfo :=
  ⟨keyOf 1, false, true, serumDexProgramId, List.replicate 349 0 ++ leBytes 8 10⟩

/-- The codec of the sample runs: serum's packing of `InitOpenOrders` (tag 15), `SettleFunds`
(tag 5) and of new orders, decoding exactly the first two and `sampleBid`. -/
def sampleCodec : Codec where
  unpack d :=
    if d = [0, 15, 0, 0, 0] then some .initOpenOrders
    else if d = [0, 5, 0, 0, 0] then some .settleFunds
    else if d = sampleBid.pack then some (.newOrderV3 sampleBid)
    else none
  pack
    | .initOpenOrders => [0, 15, 0, 0, 0]
    | .settleFunds => [0, 5, 0, 0, 0]
    | .newOrderV3 o => o.pack
    | _ => []

end PermissionedDex
