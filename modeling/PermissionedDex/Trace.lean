import PermissionedDex.Proxy

/-!
# Traces of the loops of `run`

The algebra of `Traced` and what the two loops of `run` do, for any middlewares:

* `forHooks_result`: the outcome of a hook loop is the fold of the hooks
  (`List.foldlM` in `Except`), whatever is recorded;
* `forHooks_events_of_ok`: a loop that succeeds called every hook once, in order;
* `forHooks_of_fails`: when the first `k` hooks succeed and hook `k` fails, the loop
  fails with that hook's error and hook `k` is the last event;
* `forHooks_events`: a loop only ever records a prefix of its hooks, in order;

and the same for `preParse`.  `foldlM_inv` and `foldlM_each` carry an invariant of
each hook through a successful fold.
-/

namespace PermissionedDex

open Traced

/-! ## `Traced` -/

namespace Traced

variable {α β : Type}

@[simp] theorem events_pure (a : α) : (pure a : Traced α).events = [] := rfl

@[simp] theorem result_pure (a : α) : (pure a : Traced α).result = .ok a := rfl

@[simp] theorem mk_ok_bind (evs : List Event) (a : α) (f : α → Traced β) :
    (⟨evs, .ok a⟩ : Traced α) >>= f = ⟨evs ++ (f a).events, (f a).result⟩ := rfl

@[simp] theorem mk_error_bind (evs : List Event) (e : Fault) (f : α → Traced β) :
    (⟨evs, .error e⟩ : Traced α) >>= f = ⟨evs, .error e⟩ := rfl

@[simp] theorem emit_bind (e : Event) (f : Unit → Traced β) :
    emit e >>= f = ⟨e :: (f ()).events, (f ()).result⟩ := rfl

@[simp] theorem lift_ok_bind (a : α) (f : α → Traced β) : lift (.ok a) >>= f = f a := rfl

@[simp] theorem lift_error_bind (e : Fault) (f : α → Traced β) :
    lift (.error e) >>= f = ⟨[], .error e⟩ := rfl

theorem eta (x : Traced α) : x = ⟨x.events, x.result⟩ := rfl

/-- Binding a computation that succeeds: its events, then the continuation's. -/
theorem bind_of_ok {x : Traced α} {a : α} (h : x.result = .ok a) (f : α → Traced β) :
    x >>= f = ⟨x.events ++ (f a).events, (f a).result⟩ := by
  rw [eta x, h]; rfl

/-- Binding a computation that fails: nothing runs after it. -/
theorem bind_of_error {x : Traced α} {e : Fault} (h : x.result = .error e) (f : α → Traced β) :
    x >>= f = ⟨x.events, .error e⟩ := by
  rw [eta x, h]; rfl

theorem result_bind (x : Traced α) (f : α → Traced β) :
    (x >>= f).result = x.result.bind fun a => (f a).result := by
  rw [eta x]; cases x.result <;> rfl

theorem events_bind_subset (x : Traced α) (f : α → Traced β) (ev : Event)
    (h : ev ∈ (x >>= f).events) : ev ∈ x.events ∨ ∃ a, x.result = .ok a ∧ ev ∈ (f a).events := by
  rw [eta x] at h
  cases hx : x.result with
  | error e => rw [hx] at h; exact .inl h
  | ok a =>
    rw [hx, mk_ok_bind, List.mem_append] at h
    exact h.imp_right fun h => ⟨a, rfl, h⟩

@[simp] theorem events_map (g : α → β) (x : Traced α) : (g <$> x).events = x.events := by
  rw [eta x]; cases x.result <;> simp [Functor.map, Traced.bind]

@[simp] theorem result_map (g : α → β) (x : Traced α) : (g <$> x).result = g <$> x.result := by
  rw [eta x]; cases x.result <;> rfl

@[simp] theorem map_mk_ok (g : α → β) (evs : List Event) (a : α) :
    g <$> (⟨evs, .ok a⟩ : Traced α) = ⟨evs, .ok (g a)⟩ := by
  show (⟨evs ++ [], _⟩ : Traced β) = _
  rw [List.append_nil]; rfl

@[simp] theorem map_mk_error (g : α → β) (evs : List Event) (e : Fault) :
    g <$> (⟨evs, .error e⟩ : Traced α) = ⟨evs, .error e⟩ := rfl

end Traced

@[simp] theorem Except.bind_ok {ε α β : Type} (a : α) (f : α → Except ε β) :
    (Except.ok a : Except ε α).bind f = f a := rfl

/-! ## Folds and invariants -/

section Fold

variable {σ : Type} (f : Hooks → σ → Except Fault σ)

/-- What every hook keeps holds after a successful fold. -/
theorem foldlM_inv (P : σ → Prop) {hs : List Hooks}
    (step : ∀ h ∈ hs, ∀ s s', f h s = .ok s' → P s → P s') :
    ∀ {s s'}, hs.foldlM (fun s h => f h s) s = .ok s' → P s → P s' := by
  induction hs with
  | nil => intro s s' h hs; cases h; exact hs
  | cons h hs ih =>
    intro s s' hf hp
    rw [List.foldlM_cons] at hf
    cases hh : f h s with
    | error e => rw [hh] at hf; cases hf
    | ok t =>
      rw [hh] at hf
      exact ih (fun h' m => step h' (List.mem_cons_of_mem _ m)) hf (step h (.head _) s t hh hp)

/-- In a successful fold every hook succeeded, on a state the invariant holds of. -/
theorem foldlM_each (P : σ → Prop) {hs : List Hooks}
    (step : ∀ h ∈ hs, ∀ s s', f h s = .ok s' → P s → P s') :
    ∀ {s s'}, hs.foldlM (fun s h => f h s) s = .ok s' → P s →
      ∀ h ∈ hs, ∃ t t', P t ∧ f h t = .ok t' := by
  induction hs with
  | nil => intro _ _ _ _ h m; cases m
  | cons h hs ih =>
    intro s s' hf hp h' m
    rw [List.foldlM_cons] at hf
    cases hh : f h s with
    | error e => rw [hh] at hf; cases hf
    | ok t =>
      rw [hh] at hf
      rcases List.mem_cons.mp m with rfl | m
      · exact ⟨s, t, hp, hh⟩
      · exact ih (fun h' m => step h' (List.mem_cons_of_mem _ m)) hf
          (step h (.head _) s t hh hp) h' m

end Fold

/-! ## `forHooks` -/

section ForHooks

variable {σ : Type} (hook : Hook) (f : Hooks → σ → Except Fault σ)

theorem forHooks_cons_ok {i : Nat} {h : Hooks} {hs : List Hooks} {s t : σ} (hf : f h s = .ok t) :
    forHooks hook f i (h :: hs) s =
      ⟨.hook hook i :: (forHooks hook f (i + 1) hs t).events,
        (forHooks hook f (i + 1) hs t).result⟩ := by
  show (emit (.hook hook i) >>= fun _ => lift (f h s) >>= fun s => forHooks hook f (i + 1) hs s) = _
  rw [hf]; rfl

theorem forHooks_cons_error {i : Nat} {h : Hooks} {hs : List Hooks} {s : σ} {e : Fault}
    (hf : f h s = .error e) : forHooks hook f i (h :: hs) s = ⟨[.hook hook i], .error e⟩ := by
  show (emit (.hook hook i) >>= fun _ => lift (f h s) >>= fun s => forHooks hook f (i + 1) hs s) = _
  rw [hf]; rfl

theorem forHooks_result (i : Nat) (hs : List Hooks) (s : σ) :
    (forHooks hook f i hs s).result = hs.foldlM (fun s h => f h s) s := by
  induction hs generalizing i s with
  | nil => rfl
  | cons h hs ih =>
    rw [List.foldlM_cons]
    cases hf : f h s with
    | ok t => rw [forHooks_cons_ok hook f hf]; exact ih (i + 1) t
    | error e => rw [forHooks_cons_error hook f hf]; rfl

/-- A loop only records a prefix of its hooks, in order. -/
theorem forHooks_events (i : Nat) (hs : List Hooks) (s : σ) :
    ∃ m ≤ hs.length, (forHooks hook f i hs s).events = (List.range' i m).map (.hook hook) := by
  induction hs generalizing i s with
  | nil => exact ⟨0, le_rfl, rfl⟩
  | cons h hs ih =>
    cases hf : f h s with
    | ok t =>
      obtain ⟨m, hm, he⟩ := ih (i + 1) t
      rw [forHooks_cons_ok hook f hf]
      exact ⟨m + 1, by simp [hm], by simp [he, List.range'_succ]⟩
    | error e => rw [forHooks_cons_error hook f hf]; exact ⟨1, by simp, rfl⟩

/-- A loop that succeeds called every hook once, in order. -/
theorem forHooks_events_of_ok {i : Nat} {hs : List Hooks} {s s' : σ}
    (hok : (forHooks hook f i hs s).result = .ok s') :
    (forHooks hook f i hs s).events = (List.range' i hs.length).map (.hook hook) := by
  induction hs generalizing i s with
  | nil => rfl
  | cons h hs ih =>
    cases hf : f h s with
    | ok t =>
      rw [forHooks_cons_ok hook f hf] at hok ⊢
      simp [ih hok, List.range'_succ]
    | error e => rw [forHooks_cons_error hook f hf] at hok; cases hok

/-- First failure: when the first `k` hooks succeed and hook `k` fails, the loop fails
with its error, and hook `k` is the last one called. -/
theorem forHooks_of_fails {i k : Nat} {hs : List Hooks} {h : Hooks} {s t : σ} {e : Fault}
    (hk : (hs.take k).foldlM (fun s h => f h s) s = .ok t) (hh : hs[k]? = some h)
    (he : f h t = .error e) :
    forHooks hook f i hs s = ⟨(List.range' i (k + 1)).map (.hook hook), .error e⟩ := by
  induction hs generalizing i k s with
  | nil => cases hh
  | cons h' hs ih =>
    cases k with
    | zero =>
      cases hk
      simp only [List.getElem?_cons_zero, Option.some.injEq] at hh
      subst hh
      rw [forHooks_cons_error hook f he]; rfl
    | succ k =>
      rw [List.take_succ_cons, List.foldlM_cons] at hk
      rw [List.getElem?_cons_succ] at hh
      cases hf : f h' s with
      | error e' => rw [hf] at hk; cases hk
      | ok t' =>
        rw [hf] at hk
        rw [forHooks_cons_ok hook f hf, ih hk hh]
        simp only [List.range'_succ, List.map_cons]

end ForHooks

/-! ## `preParse` -/

section PreParse

variable {i : Nat} {mw : MarketMiddleware} {mws : List MarketMiddleware} {data : Bytes}

theorem preParse_cons_ok {r : Bytes × Hooks} (hm : mw.instruction data = .ok r) :
    preParse i (mw :: mws) data = ⟨.instruction i :: (preParse (i + 1) mws r.1).events,
      (fun rs => (rs.1, r.2 :: rs.2)) <$> (preParse (i + 1) mws r.1).result⟩ := by
  show (emit (.instruction i) >>= fun _ => lift (mw.instruction data) >>= fun r =>
    preParse (i + 1) mws r.1 >>= fun rs => pure (rs.1, r.2 :: rs.2)) = _
  rw [hm, emit_bind, lift_ok_bind, eta (preParse (i + 1) mws r.1)]
  cases (preParse (i + 1) mws r.1).result <;> simp

theorem preParse_result_cons_ok {r : Bytes × Hooks} (hm : mw.instruction data = .ok r) :
    (preParse i (mw :: mws) data).result =
      (fun rs => (rs.1, r.2 :: rs.2)) <$> (preParse (i + 1) mws r.1).result := by
  rw [preParse_cons_ok hm]

theorem preParse_cons_error {e : Fault} (hm : mw.instruction data = .error e) :
    preParse i (mw :: mws) data = ⟨[.instruction i], .error e⟩ := by
  show (emit (.instruction i) >>= fun _ => lift (mw.instruction data) >>= fun r =>
    preParse (i + 1) mws r.1 >>= fun rs => pure (rs.1, r.2 :: rs.2)) = _
  rw [hm]; rfl

/-- A pre-parse only records a prefix of the middlewares, in order. -/
theorem preParse_events (i : Nat) (mws : List MarketMiddleware) (data : Bytes) :
    ∃ m ≤ mws.length, (preParse i mws data).events = (List.range' i m).map .instruction := by
  induction mws generalizing i data with
  | nil => exact ⟨0, le_rfl, rfl⟩
  | cons mw mws ih =>
    cases hm : mw.instruction data with
    | ok r =>
      obtain ⟨m, hm', he⟩ := ih (i + 1) r.1
      rw [preParse_cons_ok hm]
      exact ⟨m + 1, by simp [hm'], by simp [he, List.range'_succ]⟩
    | error e => rw [preParse_cons_error hm]; exact ⟨1, by simp, rfl⟩

theorem preParse_events_of_ok {r : Bytes × List Hooks} (h : (preParse i mws data).result = .ok r) :
    (preParse i mws data).events = (List.range' i mws.length).map .instruction ∧
      r.2.length = mws.length := by
  induction mws generalizing i data r with
  | nil => cases h; exact ⟨rfl, rfl⟩
  | cons mw mws ih =>
    cases hm : mw.instruction data with
    | ok p =>
      rw [preParse_cons_ok hm] at h ⊢
      cases hr : (preParse (i + 1) mws p.1).result with
      | error e => rw [hr] at h; cases h
      | ok q =>
        rw [hr] at h
        cases h
        obtain ⟨he, hl⟩ := ih hr
        exact ⟨by simp [he, List.range'_succ], by simp [hl]⟩
    | error e => rw [preParse_cons_error hm] at h; cases h

/-- First failure of the pre-parse: the `instruction` hook of middleware `k` fails after
the first `k` succeeded; it is the last one called. -/
theorem preParse_of_fails {k : Nat} {d : Bytes} {hs : List Hooks} {e : Fault}
    (hk : (preParse i (mws.take k) data).result = .ok (d, hs)) (hm : mws[k]? = some mw)
    (he : mw.instruction d = .error e) :
    preParse i mws data = ⟨(List.range' i (k + 1)).map .instruction, .error e⟩ := by
  induction mws generalizing i k data hs with
  | nil => cases hm
  | cons mw' mws ih =>
    cases k with
    | zero =>
      cases hk
      simp only [List.getElem?_cons_zero, Option.some.injEq] at hm
      subst hm
      rw [preParse_cons_error he]; rfl
    | succ k =>
      rw [List.getElem?_cons_succ] at hm
      rw [List.take_succ_cons] at hk
      cases hf : mw'.instruction data with
      | error e' => rw [preParse_cons_error hf] at hk; cases hk
      | ok p =>
        rw [preParse_cons_ok hf] at hk
        cases hr : (preParse (i + 1) (mws.take k) p.1).result with
        | error e' => rw [hr] at hk; cases hk
        | ok q =>
          rw [hr] at hk
          cases hk
          rw [preParse_cons_ok hf, ih hr hm]
          simp only [List.range'_succ, List.map_cons]; rfl

end PreParse

end PermissionedDex
