import PermissionedDex.Middleware

/-!
# `MarketProxy::run`

`run` checks the DEX program account, runs every middleware's `instruction` hook
over the raw data, decodes what is left, checks the account count of the arm and
calls every middleware's hook for the instruction (or every `fallback` hook and
returns), re-encodes the payload, and then makes its external calls: the queued
pre instructions, the DEX relay signed by the context's seeds, the post
instructions, the post callbacks.

A run is a `Traced` computation: the list of `Event`s it made, in order (each
`instruction` hook, each dispatched hook, each external call with the step of
`run` that made it), and how it ended.  A failure ends the computation: nothing is
recorded after it.  External calls go to a `Host`, which gives the new state of
the rest of the chain or the error the call fails with.
-/

namespace PermissionedDex

/-- Add the correct Serum DEX program ID (mainnet value shown; replace if needed). -/
def serumDexProgramId : Pubkey :=
  ⟨[57, 197, 30, 22, 184, 218, 211, 222, 151, 184, 186, 13, 222, 222, 222, 222,
    151, 184, 186, 13, 222, 222, 222, 222, 151, 184, 186, 13, 222, 222, 222, 222], rfl⟩

/-- An external call: a cross-program invocation, or a post callback. -/
inductive Call where
  | invokeSigned (ix : Instruction) (accounts : List AccountInfo) (signers : Seeds)
  | postCallback (f : PostCallback) (programId : Pubkey) (accounts : List AccountInfo)
      (ixData args : Bytes)
  deriving DecidableEq, Repr

/-- The step of `run` that makes an external call. -/
inductive Phase where
  | pre
  | relay
  | post
  | callback
  deriving DecidableEq, Repr

inductive Event where
  /-- the `instruction` hook of the middleware at position `i` -/
  | instruction (i : Nat)
  /-- a dispatched hook (or `fallback`) of the middleware at position `i` -/
  | hook (h : Hook) (i : Nat)
  | call (phase : Phase) (c : Call)
  deriving DecidableEq, Repr

/-- What an external call does to the state `W` of the rest of the chain, or the error it
fails with. -/
abbrev Host (W : Type) := Call → W → Except ProgramError W

/-! ## Traced computations -/

/-- The events of a computation and its outcome. -/
structure Traced (α : Type) where
  events : List Event
  result : Except Fault α

namespace Traced

variable {α β : Type}

def bind (x : Traced α) (f : α → Traced β) : Traced β :=
  match x.result with
  | .ok a => ⟨x.events ++ (f a).events, (f a).result⟩
  | .error e => ⟨x.events, .error e⟩

instance : Monad Traced where
  pure a := ⟨[], .ok a⟩
  bind := bind

def emit (e : Event) : Traced Unit := ⟨[e], .ok ()⟩

def lift (x : Except Fault α) : Traced α := ⟨[], x⟩

end Traced

open Traced

/-! ## The loops of `run` -/

/-- `for mw in &self.middlewares { mw.hook(&mut ctx, ..)?; }`, from the middleware at
position `i`. -/
def forHooks {σ : Type} (hook : Hook) (f : Hooks → σ → Except Fault σ) :
    Nat → List Hooks → σ → Traced σ
  | _, [], s => pure s
  | i, h :: hs, s => do
    emit (.hook hook i)
    let s ← lift (f h s)
    forHooks hook f (i + 1) hs s

/-- `for mw in &mut self.middlewares { mw.instruction(&mut ix_data)?; }`: the data left
and the hooks of each middleware as its `instruction` hook left it. -/
def preParse : Nat → List MarketMiddleware → Bytes → Traced (Bytes × List Hooks)
  | _, [], data => pure (data, [])
  | i, mw :: mws, data => do
    emit (.instruction i)
    let r ← lift (mw.instruction data)
    let rs ← preParse (i + 1) mws r.1
    pure (rs.1, r.2 :: rs.2)

/-- The `_` arm of the dispatch: every `fallback` hook, then `return Ok(())`. -/
def fallback (hooks : List Hooks) (ctx : Context) : Traced (Option (Context × MarketInstruction)) := do
  let _ ← forHooks .fallback Hooks.fallback 0 hooks ctx
  pure none

/-- Method dispatch: the context and payload the hooks leave, or `none` for the `_` arm. -/
def dispatch (hooks : List Hooks) (ctx : Context) :
    Option MarketInstruction → Traced (Option (Context × MarketInstruction))
  | some ix =>
    match ix.arm with
    | some (hook, n) =>
      if ctx.accounts.length < n then lift (.error (ErrorCode.anchorError .notEnoughAccounts))
      else some <$> forHooks hook Hooks.call 0 hooks (ctx, ix)
    | none => fallback hooks ctx
  | none => fallback hooks ctx

/-! ## External calls -/

section Calls

variable {W : Type} (host : Host W)

def callHost (phase : Phase) (c : Call) (w : W) : Traced W := do
  emit (.call phase c)
  lift (liftErr (host c w))

def invokeAll (phase : Phase) : List (Instruction × List AccountInfo × Seeds) → W → Traced W
  | [], w => pure w
  | (ix, accs, seeds) :: rest, w => do
    let w ← callHost host phase (.invokeSigned ix accs seeds) w
    invokeAll phase rest w

def runCallbacks (programId : Pubkey) (ixData : Bytes) :
    List (PostCallback × List AccountInfo × Bytes) → W → Traced W
  | [], w => pure w
  | (f, accs, args) :: rest, w => do
    let w ← callHost host .callback (.postCallback f programId accs ixData args) w
    runCallbacks programId ixData rest w

/-- The DEX relay: the re-encoded instruction over the metas of the working accounts. -/
def relayInstruction (accounts : List AccountInfo) (ixData : Bytes) : Instruction where
  data := ixData
  accounts := accounts.map fun acc => ⟨acc.key, acc.isSigner, acc.isWritable⟩
  programId := serumDexProgramId

/-- Pre instructions (each signed by its own seeds), the DEX relay (signed by the
context's seeds), post instructions, post callbacks. -/
def execute (programId : Pubkey) (ctx : Context) (ixData : Bytes) (w : W) : Traced W := do
  let w ← invokeAll host .pre ctx.preInstructions w
  let w ← callHost host .relay
    (.invokeSigned (relayInstruction ctx.accounts ixData) ctx.accounts ctx.seeds) w
  let w ← invokeAll host .post ctx.postInstructions w
  runCallbacks host programId ixData ctx.postCallbacks w

end Calls

/-! ## `MarketProxy` -/

/-- `MarketProxy` provides an abstraction for implementing proxy programs to the Serum
orderbook, allowing one to implement a middleware for the purposes of intercepting and
modifying requests before being relayed to the orderbook. -/
structure MarketProxy where
  middlewares : List MarketMiddleware

namespace MarketProxy

def new : MarketProxy := ⟨[]⟩

/-- Builder method for adding a middleware to the proxy. -/
def middleware (self : MarketProxy) (mw : MarketMiddleware) : MarketProxy :=
  ⟨self.middlewares ++ [mw]⟩

/-- Everything `run` does before its external calls: the context and payload to relay,
or `none` when the instruction went to the fallback hooks. -/
def prepare (self : MarketProxy) (codec : Codec) (programId : Pubkey)
    (accounts : List AccountInfo) (data : Bytes) : Traced (Option (Context × MarketInstruction)) := do
  -- First account is the Serum DEX executable--used for CPI.
  let dex ← lift (index accounts 0)
  if dex.key ≠ serumDexProgramId then
    lift (.error (ErrorCode.anchorError .invalidTargetProgram))
  else
    let accInfos ← lift (sliceFrom accounts 1)
    -- Process the instruction data.
    let r ← preParse 0 self.middlewares data
    -- Method dispatch.
    dispatch r.2 (Context.new programId dex.key accInfos) (codec.unpack r.1)

/-- Entrypoint to the program. -/
def run {W : Type} (self : MarketProxy) (codec : Codec) (host : Host W) (programId : Pubkey)
    (accounts : List AccountInfo) (data : Bytes) (w : W) : Traced W := do
  match ← self.prepare codec programId accounts data with
  | none => pure w
  | some (ctx, ix) => execute host programId ctx (codec.pack ix) w

end MarketProxy

end PermissionedDex
