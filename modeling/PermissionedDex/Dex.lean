import PermissionedDex.Runtime

/-!
# The interfaces the proxy uses from other crates

* `serum_dex::instruction`: the decoded instruction (`MarketInstruction`) and the
  payloads the middlewares can rewrite.  The codec, `MarketInstruction::unpack` and
  `MarketInstruction::pack`, belongs to the DEX crate; it is a parameter
  (`Codec`) of everything downstream.  The variants `run` has no arm for are
  one constructor, `other`.
* `spl_token::instruction::{approve, revoke}`: the two token instructions the
  open-orders middleware queues around a new order.
* `anchor_spl::token::accessor::authority`: the owner field of a token account.
-/

namespace PermissionedDex

/-! ## `serum_dex::instruction` -/

inductive Side where
  | bid
  | ask
  deriving DecidableEq, Repr

inductive SelfTradeBehavior where
  | decrementTake
  | cancelProvide
  | abortTransaction
  deriving DecidableEq, Repr

inductive OrderType where
  | limit
  | immediateOrCancel
  | postOnly
  deriving DecidableEq, Repr

/-- `NonZeroU64`. -/
structure NonZeroU64 where
  get : UInt64
  ne_zero : get ≠ 0
  deriving DecidableEq, Repr

structure NewOrderInstructionV3 where
  side : Side
  limitPrice : NonZeroU64
  maxCoinQty : NonZeroU64
  maxNativePcQtyIncludingFees : NonZeroU64
  selfTradeBehavior : SelfTradeBehavior
  orderType : OrderType
  clientOrderId : UInt64
  limit : UInt16
  /-- `i64` -/
  maxTs : Int
  deriving DecidableEq, Repr

structure CancelOrderInstructionV2 where
  side : Side
  /-- `u128` -/
  orderId : Nat
  deriving DecidableEq, Repr

inductive MarketInstruction where
  | initOpenOrders
  | newOrderV3 (ix : NewOrderInstructionV3)
  | cancelOrderV2 (ix : CancelOrderInstructionV2)
  | cancelOrderByClientIdV2 (clientId : UInt64)
  | settleFunds
  | closeOpenOrders
  | consumeEvents (limit : UInt16)
  | consumeEventsPermissioned (limit : UInt16)
  | prune (limit : UInt16)
  /-- Any other variant (`InitializeMarket`, `NewOrder`, `MatchOrders`, `SendTake`, …),
  by its discriminant. -/
  | other (discriminant : UInt32)
  deriving DecidableEq, Repr

/-- `MarketInstruction::unpack` and `MarketInstruction::pack`. -/
structure Codec where
  unpack : Bytes → Option MarketInstruction
  pack : MarketInstruction → Bytes

/-! ## `spl_token::instruction` -/

/-- `spl_token::ID`. -/
def splTokenId : Pubkey :=
  ⟨[6, 221, 246, 225, 215, 101, 161, 147, 217, 203, 225, 70, 206, 235, 121, 172,
    28, 180, 133, 237, 95, 91, 55, 145, 58, 140, 245, 133, 126, 255, 0, 169], rfl⟩

/-- `spl_token::check_program_account`. -/
def checkProgramAccount (splTokenProgramId : Pubkey) : Except ProgramError Unit :=
  if splTokenProgramId ≠ splTokenId then .error .incorrectProgramId else .ok ()

/-- The instruction `approve` builds: `TokenInstruction::Approve { amount }` over
`[source (writable), delegate, owner (signer unless multisig), signers…]`. -/
def approveIx (tokenProgramId source delegate owner : Pubkey) (signerPubkeys : List Pubkey)
    (amount : UInt64) : Instruction where
  programId := tokenProgramId
  accounts := [.new source false, .newReadonly delegate false,
    .newReadonly owner signerPubkeys.isEmpty] ++ signerPubkeys.map (.newReadonly · true)
  data := 4 :: u64ToLeBytes amount

/-- The instruction `revoke` builds: `TokenInstruction::Revoke` over
`[source (writable), owner (signer unless multisig), signers…]`. -/
def revokeIx (tokenProgramId source owner : Pubkey) (signerPubkeys : List Pubkey) : Instruction where
  programId := tokenProgramId
  accounts := [.new source false, .newReadonly owner signerPubkeys.isEmpty] ++
    signerPubkeys.map (.newReadonly · true)
  data := [5]

/-- `spl_token::instruction::approve`. -/
def approve (tokenProgramId source delegate owner : Pubkey) (signerPubkeys : List Pubkey)
    (amount : UInt64) : Except ProgramError Instruction := do
  checkProgramAccount tokenProgramId
  pure (approveIx tokenProgramId source delegate owner signerPubkeys amount)

/-- `spl_token::instruction::revoke`. -/
def revoke (tokenProgramId source owner : Pubkey) (signerPubkeys : List Pubkey) :
    Except ProgramError Instruction := do
  checkProgramAccount tokenProgramId
  pure (revokeIx tokenProgramId source owner signerPubkeys)

@[simp] theorem approve_splTokenId (source delegate owner : Pubkey) (signers : List Pubkey)
    (amount : UInt64) :
    approve splTokenId source delegate owner signers amount =
      .ok (approveIx splTokenId source delegate owner signers amount) := rfl

@[simp] theorem revoke_splTokenId (source owner : Pubkey) (signers : List Pubkey) :
    revoke splTokenId source owner signers = .ok (revokeIx splTokenId source owner signers) := rfl

/-- An approve names its source and owner: the first and third account. -/
theorem approveIx_inj {p s d o p' s' d' o' : Pubkey} {a a' : UInt64} :
    approveIx p s d o [] a = approveIx p' s' d' o' [] a' → s = s' ∧ o = o' := by
  intro h
  have := congrArg Instruction.accounts h
  simp only [approveIx, List.map_nil, List.append_nil, List.cons.injEq] at this
  exact ⟨congrArg AccountMeta.pubkey this.1, congrArg AccountMeta.pubkey this.2.2.1⟩

theorem approveIx_ne_revokeIx (p s d o p' s' o' : Pubkey) (a : UInt64) :
    approveIx p s d o [] a ≠ revokeIx p' s' o' [] := by
  intro h
  have := congrArg (·.data.head?) h
  simp [approveIx, revokeIx] at this

/-! ## `anchor_spl::token::accessor` -/

/-- `token::accessor::authority`: bytes 32..64 of an SPL token account, its owner. -/
def authority (account : AccountInfo) : Except Fault Pubkey :=
  if h : 64 ≤ account.data.length then
    .ok ⟨(account.data.drop 32).take 32, by simp only [List.length_take, List.length_drop]; omega⟩
  else .error (.panic .sliceOutOfRange)

end PermissionedDex
