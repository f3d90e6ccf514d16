import PermissionedDex.Dex

/-!
# The request context and the middleware interface

`Context` is the per-request record every hook may rewrite: the working account
list, the signer seeds for the relay, the instructions to run before and after
it, the post callbacks.  `MarketMiddleware` is the trait: its `instruction` hook
runs on the raw data first and may change the middleware's own state, so it
gives back the remaining data and the `Hooks` of the middleware as it is then;
each field of `Hooks` defaults, as the trait's methods do, to `Ok(())` with
nothing changed.

`MarketInstruction.arm` is the table of `run`'s dispatch: for each decoded
instruction, the hook it goes to and the fewest working accounts its arm
accepts.  `Hooks.call` passes the payload by `&mut`, so a hook can rewrite the
payload but not the variant.
-/

namespace PermissionedDex

/-! ## Errors -/

/-- `ErrorCode`, declared with `#[error_code(offset = 500)]`. -/
inductive ErrorCode where
  | invalidDexPid
  | invalidInstruction
  | cannotUnpack
  | invalidReferral
  | unauthorizedUser
  | notEnoughAccounts
  | invalidTargetProgram
  deriving DecidableEq, Repr

/-- `e as u32`: the discriminant of the variant. -/
def ErrorCode.discriminant : ErrorCode → UInt32
  | .invalidDexPid => 0
  | .invalidInstruction => 1
  | .cannotUnpack => 2
  | .invalidReferral => 3
  | .unauthorizedUser => 4
  | .notEnoughAccounts => 5
  | .invalidTargetProgram => 6

/-- `anchor_lang::error!(e).into()`: `ProgramError::Custom` of the anchor error
number, the offset 500 plus the discriminant. -/
def ErrorCode.anchorError (e : ErrorCode) : Fault := .error (.custom (500 + e.discriminant))

/-- `ProgramError::Custom(e as u32)`. -/
def ErrorCode.custom (e : ErrorCode) : Fault := .error (.custom e.discriminant)

/-! ## Context -/

/-- One signer: the seeds of a program-derived address. -/
abbrev SeedPath := List Bytes

abbrev Seeds := List SeedPath

/-- A post callback `fn(&Pubkey, Vec<AccountInfo>, Vec<u8>, Vec<u8>) -> ProgramResult`,
kept as the function's address; what a call of it does is the runtime's. -/
structure PostCallback where
  address : Nat
  deriving DecidableEq, Repr

/-- Per request context.  Can be used to share data between middleware handlers. -/
structure Context where
  programId : Pubkey
  dexProgramId : Pubkey
  accounts : List AccountInfo
  seeds : Seeds
  /-- Instructions to execute before the DEX relay CPI. -/
  preInstructions : List (Instruction × List AccountInfo × Seeds)
  /-- Instructions to execute after the DEX relay CPI. -/
  postInstructions : List (Instruction × List AccountInfo × Seeds)
  postCallbacks : List (PostCallback × List AccountInfo × Bytes)
  deriving DecidableEq, Repr

def Context.new (programId dexProgramId : Pubkey) (accounts : List AccountInfo) : Context where
  programId := programId
  dexProgramId := dexProgramId
  accounts := accounts
  seeds := []
  preInstructions := []
  postInstructions := []
  postCallbacks := []

/-! ## Middleware -/

/-- The `&self` methods of `MarketMiddleware`, each defaulting to `Ok(())`. -/
structure Hooks where
  initOpenOrders : Context → Except Fault Context := .ok
  newOrderV3 : Context → NewOrderInstructionV3 → Except Fault (Context × NewOrderInstructionV3) :=
    fun ctx ix => .ok (ctx, ix)
  cancelOrderV2 :
    Context → CancelOrderInstructionV2 → Except Fault (Context × CancelOrderInstructionV2) :=
    fun ctx ix => .ok (ctx, ix)
  cancelOrderByClientIdV2 : Context → UInt64 → Except Fault (Context × UInt64) :=
    fun ctx clientId => .ok (ctx, clientId)
  settleFunds : Context → Except Fault Context := .ok
  closeOpenOrders : Context → Except Fault Context := .ok
  consumeEvents : Context → UInt16 → Except Fault (Context × UInt16) :=
    fun ctx limit => .ok (ctx, limit)
  consumeEventsPermissioned : Context → UInt16 → Except Fault (Context × UInt16) :=
    fun ctx limit => .ok (ctx, limit)
  prune : Context → UInt16 → Except Fault (Context × UInt16) := fun ctx limit => .ok (ctx, limit)
  /-- Called when the instruction data doesn't match any DEX instruction. -/
  fallback : Context → Except Fault Context := .ok

/-- `MarketMiddleware`: the `instruction` hook (`&mut self`, `&mut &[u8]`) and, through
its result, the hooks of the middleware it leaves. -/
structure MarketMiddleware where
  instruction : Bytes → Except Fault (Bytes × Hooks)

/-- A middleware with the default `instruction` hook. -/
def MarketMiddleware.ofHooks (h : Hooks) : MarketMiddleware := ⟨fun data => .ok (data, h)⟩

/-- The hooks `run` calls, for the trace. -/
inductive Hook where
  | initOpenOrders
  | newOrderV3
  | cancelOrderV2
  | cancelOrderByClientIdV2
  | settleFunds
  | closeOpenOrders
  | consumeEvents
  | consumeEventsPermissioned
  | prune
  | fallback
  deriving DecidableEq, Repr

/-- The arms of `run`'s `match ix`: the hook and the fewest working accounts of the arm;
`none` is the `_` arm. -/
def MarketInstruction.arm : MarketInstruction → Option (Hook × Nat)
  | .initOpenOrders => some (.initOpenOrders, 4)
  | .newOrderV3 _ => some (.newOrderV3, 12)
  | .cancelOrderV2 _ => some (.cancelOrderV2, 6)
  | .cancelOrderByClientIdV2 _ => some (.cancelOrderByClientIdV2, 6)
  | .settleFunds => some (.settleFunds, 10)
  | .closeOpenOrders => some (.closeOpenOrders, 4)
  | .consumeEvents _ => some (.consumeEvents, 4)
  | .consumeEventsPermissioned _ => some (.consumeEventsPermissioned, 3)
  | .prune _ => some (.prune, 7)
  | .other _ => none

/-- The hook of a decoded instruction, its payload passed by `&mut`.  The `_` arm calls
no such hook; `other` is left as it is. -/
def Hooks.call (h : Hooks) : Context × MarketInstruction → Except Fault (Context × MarketInstruction)
  | (ctx, .initOpenOrders) => (·, .initOpenOrders) <$> h.initOpenOrders ctx
  | (ctx, .newOrderV3 ix) => (fun r => (r.1, .newOrderV3 r.2)) <$> h.newOrderV3 ctx ix
  | (ctx, .cancelOrderV2 ix) => (fun r => (r.1, .cancelOrderV2 r.2)) <$> h.cancelOrderV2 ctx ix
  | (ctx, .cancelOrderByClientIdV2 c) =>
    (fun r => (r.1, .cancelOrderByClientIdV2 r.2)) <$> h.cancelOrderByClientIdV2 ctx c
  | (ctx, .settleFunds) => (·, .settleFunds) <$> h.settleFunds ctx
  | (ctx, .closeOpenOrders) => (·, .closeOpenOrders) <$> h.closeOpenOrders ctx
  | (ctx, .consumeEvents l) => (fun r => (r.1, .consumeEvents r.2)) <$> h.consumeEvents ctx l
  | (ctx, .consumeEventsPermissioned l) =>
    (fun r => (r.1, .consumeEventsPermissioned r.2)) <$> h.consumeEventsPermissioned ctx l
  | (ctx, .prune l) => (fun r => (r.1, .prune r.2)) <$> h.prune ctx l
  | (ctx, .other d) => .ok (ctx, .other d)

/-- The default hooks change nothing. -/
@[simp] theorem Hooks.call_default (s : Context × MarketInstruction) :
    ({} : Hooks).call s = .ok s := by
  obtain ⟨ctx, mi⟩ := s
  cases mi <;> rfl

end PermissionedDex
