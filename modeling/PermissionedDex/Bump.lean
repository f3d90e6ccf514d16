import PermissionedDex.Signers

/-!
# The bump byte of the open orders authority

`OpenOrdersPda::instruction` stores the two bump bytes of the data only when the
discriminant is 0, an init; every hook signs for the open orders authority with
`self.bump`.  A middleware state starts at `OpenOrdersPda::new`, bump 0, in every
invocation.  So an invocation that is not an init signs with bump 0, whatever bump its
user's open orders account was created with (the `open_orders_authority!` arm without a
bump, which derives it with `find_program_address`, is not used by any hook).

* `run_relay_authority_bump`: in a run with a fresh `OpenOrdersPda`, the relay is signed
  for the open orders authority with the bump byte of the data for an init, and with
  bump 0 for any other operation.
* `run_relay_bump_agree`: an init with bump `b` and a later operation of the same user on
  the same market sign for the same open orders authority exactly when `b = 0`.
-/

namespace PermissionedDex

theorem openOrdersAuthority_inj_bump {dex market user : Pubkey} {b b' : UInt8} :
    openOrdersAuthority dex market user b = openOrdersAuthority dex market user b' ↔ b = b' := by
  simp [openOrdersAuthority]

theorem OpenOrdersPda.pdaSeeds_head (self : OpenOrdersPda) (dex market user : Pubkey)
    (mi : MarketInstruction) :
    (self.pdaSeeds dex market user mi).head? = some (openOrdersAuthority dex market user self.bump) := by
  cases mi <;> rfl

/-- The open orders authority a run with a fresh `OpenOrdersPda` among loggers and referral
checks signs its relay with, for an operation that signs for an owner: the one of the owner
and the market at the operation's slots, with the bump byte of the data for an init
(`0 :: b :: bi :: rest`), and with bump 0 when the discriminant is not 0. -/
theorem run_relay_authority_bump {W : Type} {pre post : List Mw}
    (hpre : ∀ m ∈ pre, m.isPda = false) (hpost : ∀ m ∈ post, m.isPda = false) (codec : Codec)
    (host : Host W) (programId : Pubkey) (accounts : List AccountInfo) (data : Bytes) (w : W)
    {ix : Instruction} {accs : List AccountInfo} {seeds : Seeds}
    (h : Event.call .relay (.invokeSigned ix accs seeds) ∈
      (MarketProxy.run ⟨(pre ++ .openOrdersPda .new :: post).map Mw.toMiddleware⟩ codec host
        programId accounts data w).events) :
    ∃ dex rest mi, accounts = dex :: rest ∧ dex.key = serumDexProgramId ∧
      MarketProxy.decode ⟨(pre ++ .openOrdersPda .new :: post).map Mw.toMiddleware⟩ codec data =
        some mi ∧
      ∀ u m, mi.ownerSlots = some (u, m) → ∃ user market, rest[u]? = some user ∧
        rest[m]? = some market ∧
        (∀ b bi rest', data = 0 :: b :: bi :: rest' →
          seeds.head? = some (openOrdersAuthority dex.key market.key user.key b)) ∧
        (∀ x rest', data = x :: rest' → x ≠ 0 →
          seeds.head? = some (openOrdersAuthority dex.key market.key user.key 0)) := by
  obtain ⟨ctx, mi, hp, hc⟩ := run_relay _ codec host programId accounts data w h
  cases hc
  have hdec := MarketProxy.decode_of_prepare hp
  obtain ⟨dex, rest, d, p', -, -, rfl, hd, hi, -, -, -, hcall⟩ := prepare_single_pda hpre hpost hp
  obtain ⟨added, hseeds, hsigned⟩ := p'.hooks_call_seeds hcall
  refine ⟨dex, rest, mi, rfl, hd, hdec, fun u m hum => ?_⟩
  rw [OpenOrdersPda.SignedFor, hum] at hsigned
  obtain ⟨user, market, hu, -, hm, rfl⟩ := hsigned
  have hhead : ctx.seeds.head? = some (openOrdersAuthority dex.key market.key user.key p'.bump) := by
    rw [hseeds]; exact p'.pdaSeeds_head _ _ _ mi
  refine ⟨user, market, hu, hm, fun b bi rest' hdata => ?_, fun x rest' hdata hx => ?_⟩
  · rw [hdata, OpenOrdersPda.instruction_init, Except.ok.injEq, Prod.mk.injEq] at hi
    rw [hhead, ← hi.1]
  · rw [hdata, OpenOrdersPda.instruction_of_ne _ hx, Except.ok.injEq, Prod.mk.injEq] at hi
    rw [hhead, ← hi.1]
    rfl

/-- Two invocations by the same user on the same market, each with a fresh `OpenOrdersPda`
among loggers and referral checks: an init with data `0 :: b :: bi :: rest`, and another
operation with a discriminant `d ≠ 0`.  When both reach the relay, the init is signed for
the open orders authority with bump `b` and the other with bump 0, so they sign for the
same open orders authority exactly when `b = 0`. -/
theorem run_relay_bump_agree {W W' : Type} {pre post pre' post' : List Mw}
    (hpre : ∀ m ∈ pre, m.isPda = false) (hpost : ∀ m ∈ post, m.isPda = false)
    (hpre' : ∀ m ∈ pre', m.isPda = false) (hpost' : ∀ m ∈ post', m.isPda = false)
    (codec codec' : Codec) (host : Host W) (host' : Host W') (programId programId' : Pubkey)
    (dex dex' : AccountInfo) (rest rest' : List AccountInfo) (b bi d : UInt8) (data data' : Bytes)
    (w : W) (w' : W') {ix ix' : Instruction} {accs accs' : List AccountInfo} {seeds seeds' : Seeds}
    {mi : MarketInstruction} {u m : Nat} {user market user' market' : AccountInfo}
    (hinit : MarketProxy.decode ⟨(pre ++ .openOrdersPda .new :: post).map Mw.toMiddleware⟩ codec
      (0 :: b :: bi :: data) = some .initOpenOrders)
    (h : Event.call .relay (.invokeSigned ix accs seeds) ∈
      (MarketProxy.run ⟨(pre ++ .openOrdersPda .new :: post).map Mw.toMiddleware⟩ codec host
        programId (dex :: rest) (0 :: b :: bi :: data) w).events)
    (hu : rest[3]? = some user) (hm : rest[4]? = some market) (hd : d ≠ 0)
    (hmi : MarketProxy.decode ⟨(pre' ++ .openOrdersPda .new :: post').map Mw.toMiddleware⟩ codec'
      (d :: data') = some mi) (hslots : mi.ownerSlots = some (u, m))
    (h' : Event.call .relay (.invokeSigned ix' accs' seeds') ∈
      (MarketProxy.run ⟨(pre' ++ .openOrdersPda .new :: post').map Mw.toMiddleware⟩ codec' host'
        programId' (dex' :: rest') (d :: data') w').events)
    (hu' : rest'[u]? = some user') (hm' : rest'[m]? = some market')
    (hsame : user'.key = user.key ∧ market'.key = market.key) :
    seeds.head? = some (openOrdersAuthority serumDexProgramId market.key user.key b) ∧
    seeds'.head? = some (openOrdersAuthority serumDexProgramId market.key user.key 0) ∧
    (seeds.head? = seeds'.head? ↔ b = 0) := by
  obtain ⟨dex₁, rest₁, mi₁, he₁, hd₁, hdec₁, hs₁⟩ :=
    run_relay_authority_bump hpre hpost codec host programId _ _ w h
  obtain ⟨dex₂, rest₂, mi₂, he₂, hd₂, hdec₂, hs₂⟩ :=
    run_relay_authority_bump hpre' hpost' codec' host' programId' _ _ w' h'
  cases he₁; cases he₂
  rw [hinit, Option.some.injEq] at hdec₁
  rw [hmi, Option.some.injEq] at hdec₂
  subst hdec₁ hdec₂
  obtain ⟨user₁, market₁, hu₁, hm₁, hinit₁, -⟩ := hs₁ 3 4 rfl
  obtain ⟨user₂, market₂, hu₂, hm₂, -, hother₂⟩ := hs₂ u m hslots
  rw [hu, Option.some.injEq] at hu₁
  rw [hm, Option.some.injEq] at hm₁
  rw [hu', Option.some.injEq] at hu₂
  rw [hm', Option.some.injEq] at hm₂
  subst hu₁ hm₁ hu₂ hm₂
  have e₁ := hinit₁ b bi data rfl
  have e₂ := hother₂ d data' rfl hd
  rw [hd₁] at e₁
  rw [hd₂, hsame.1, hsame.2] at e₂
  refine ⟨e₁, e₂, ?_⟩
  rw [e₁, e₂, Option.some.injEq, openOrdersAuthority_inj_bump]

/-- Two invocations of the owner of key 4 on the market of key 5, each through a fresh
`OpenOrdersPda` alone and with only the owner signing: an init of the open orders account of
key 3 with bump 255 (data `[0, 255, 254]` and the packed `InitOpenOrders`) and a settle of the
same account (discriminant 1 and the packed `SettleFunds`).  Both reach the relay, and they
are signed for open orders authorities of different bumps. -/
theorem run_relay_bump_agree_255 :
    MarketProxy.decode ⟨([] ++ Mw.openOrdersPda .new :: []).map Mw.toMiddleware⟩ sampleCodec
      [0, 255, 254, 0, 15, 0, 0, 0] = some .initOpenOrders ∧
    Event.call .relay (.invokeSigned
        (relayInstruction [callerAccount false 3, callerAccount true 3, callerAccount false 5,
          callerAccount false 6, callerAccount true 7] [0, 15, 0, 0, 0])
        [callerAccount false 3, callerAccount true 3, callerAccount false 5, callerAccount false 6,
          callerAccount true 7]
        [openOrdersAuthority serumDexProgramId (keyOf 5) (keyOf 4) 255,
          openOrdersInitAuthority serumDexProgramId (keyOf 5) 254]) ∈
      (MarketProxy.run ⟨([] ++ Mw.openOrdersPda .new :: []).map Mw.toMiddleware⟩ sampleCodec
        (fun _ (w : Unit) => .ok w) serumDexProgramId (dexAccount :: callerAccounts 3 (List.range' 1 7))
        [0, 255, 254, 0, 15, 0, 0, 0] ()).events ∧
    MarketProxy.decode ⟨([] ++ Mw.openOrdersPda .new :: []).map Mw.toMiddleware⟩ sampleCodec
      [1, 0, 5, 0, 0, 0] = some .settleFunds ∧
    Event.call .relay (.invokeSigned
        (relayInstruction (callerAccounts 2 [5, 3, 3, 6, 7, 8, 9, 10, 11, 12]) [0, 5, 0, 0, 0])
        (callerAccounts 2 [5, 3, 3, 6, 7, 8, 9, 10, 11, 12])
        [openOrdersAuthority serumDexProgramId (keyOf 5) (keyOf 4) 0]) ∈
      (MarketProxy.run ⟨([] ++ Mw.openOrdersPda .new :: []).map Mw.toMiddleware⟩ sampleCodec
        (fun _ (w : Unit) => .ok w) serumDexProgramId
        (dexAccount :: callerAccounts 2 [5, 3, 4, 6, 7, 8, 9, 10, 11, 12]) [1, 0, 5, 0, 0, 0] ()).events ∧
    [openOrdersAuthority serumDexProgramId (keyOf 5) (keyOf 4) 255,
        openOrdersInitAuthority serumDexProgramId (keyOf 5) 254].head? ≠
      [openOrdersAuthority serumDexProgramId (keyOf 5) (keyOf 4) 0].head? := by
  refine ⟨?hinit, ?h, ?hmi, ?h', fun he => absurd
    ((run_relay_bump_agree (by simp) (by simp) (by simp) (by simp) _ _ _ _ _ _ _ _ _ _
      255 254 1 [0, 15, 0, 0, 0] [0, 5, 0, 0, 0] () () ?hinit ?h
      (by decide : (callerAccounts 3 (List.range' 1 7))[3]? = some (callerAccount true 4))
      (by decide : (callerAccounts 3 (List.range' 1 7))[4]? = some (callerAccount false 5))
      (by decide) ?hmi rfl ?h'
      (by decide : (callerAccounts 2 [5, 3, 4, 6, 7, 8, 9, 10, 11, 12])[2]? = some (callerAccount true 4))
      (by decide : (callerAccounts 2 [5, 3, 4, 6, 7, 8, 9, 10, 11, 12])[0]? = some (callerAccount false 5))
      ⟨rfl, rfl⟩).2.2.mp he) (by decide)⟩
  case hinit => decide!
  case h => decide!
  case hmi => decide!
  case h' => decide!

end PermissionedDex
