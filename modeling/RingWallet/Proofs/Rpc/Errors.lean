import RingWallet.Proofs.Spend.Build
import RingWallet.Proofs.Spend.Taken
import RingWallet.Proofs.Support.Script
import RingWallet.Proofs.Wallet.Keeps
import RingWallet.Rpc.Service

/-!
# What a failed request has sent

The service answers with an error and drops the wallet that it opened, whatever was sent by then. Of
all methods only the transfers send anything (`Rpc.mute_call`), and they do so at their end: a
transfer is prepared first (`Rpc.prepareTransfer`), which sends nothing, and the prepared
transactions are then sent one after the other (`Rpc.sendTransfer_eq`). So an error comes before
anything is taken, or the daemon has taken the first ones of several transactions
(`Rpc.taken_of_sendTransfer`). A transfer that must not be split has one transaction only, which
leaves `transfer_split` (`taken_of_error`).
-/

set_option autoImplicit false

namespace RingWallet

open WalletM Environment

namespace Rpc

variable (S : Suite) {σ : Type} {env : Environment σ} (config : Config)

/-! ### Methods that send nothing -/

/-- The session in which the service runs an operation on a wallet. -/
def opened (w : Wallet) (e : σ) : Session σ where
  env := e
  wallet := w
  handlers := [.logging config.coinDecimals]

/-- What the service makes of the end of an operation. -/
theorem run_onWallet {α : Type} (w : Wallet) (failure : WalletError → RpcError)
    (operation : WalletM σ α) (e : σ) :
    (onWallet config w failure operation).run.run e =
      let ended := exec operation (opened config w e)
      ((ended.1.map (·, ended.2.wallet)).mapError failure, ended.2.env) := by
  show onWallet config w failure operation e = _
  unfold onWallet
  have ran : operation.run
      { env := e, wallet := w, handlers := [.logging config.coinDecimals] } =
      exec operation (opened config w e) := rfl
  simp only [ran]
  rcases exec operation (opened config w e) with ⟨_ | a, t⟩
  · rfl
  · rfl

/-- An operation of a wallet sends no more when the service runs it. -/
theorem mute_onWallet {α : Type} {operation : WalletM σ α}
    (silent : ∀ s, env.Silent s.env (exec operation s).2.env) (w : Wallet)
    (failure : WalletError → RpcError) :
    env.Mute (onWallet config w failure operation).run := by
  intro e
  show env.Silent e ((onWallet config w failure operation).run.run e).2
  rw [run_onWallet]
  exact silent (opened config w e)

variable (env) in
/-- A refresh sends nothing when the service runs it. -/
theorem mute_refreshFromLocalChain (w : Wallet) (failure : WalletError → RpcError) :
    env.Mute (onWallet config w failure (Sync.refreshFromLocalChain S env)).run :=
  mute_onWallet config (Sync.silent_pull S env .localChain none) w failure

variable (env) in
/-- Only the two methods for transfers send anything. -/
theorem mute_call {method : String} (params : Json) (no_transfer : method ≠ "transfer")
    (no_split : method ≠ "transfer_split") : env.Mute (call S env config method params).run := by
  unfold call
  split
  · -- the methods in the order in which they are dispatched; each only asks the environment
    refine .run_bind (mute_pure _) fun identity => ?_
    exact .run_bind (mute_pure _) fun w => .run_bind (mute_pure _) fun _ => mute_pure _
  · refine .run_bind (mute_pure _) fun identity => .run_bind (mute_pure _) fun w => ?_
    exact .run_bind (.lift (.of_step fun e => .now e)) fun _ => mute_pure _
  · refine .run_bind (mute_pure _) fun identity => .run_bind (mute_pure _) fun w => ?_
    exact .run_bind (mute_refreshFromLocalChain S env config w _) fun _ => mute_pure _
  · exact absurd rfl no_transfer
  · exact absurd rfl no_split
  · exact .run_bind (mute_pure _) fun _ => mute_pure _
  · refine .run_bind (.lift (.of_step fun e => .getHeight e)) fun answer => ?_
    split
    · exact mute_pure _
    · split
      · exact mute_pure _
      · split <;> exact mute_pure _
  · exact mute_pure _

/-! ### Transfers -/

variable (env) in
/-- The transactions of a transfer, before any of them is sent, and the wallet that has followed the
chain. -/
def prepareTransfer (params : TransferParams) (split : Bool) :
    RpcM σ (List PendingTransaction × Wallet) := do
  let w ← (openWallet S config params.identity true : Except _ _)
  let (_, w) ← onWallet config w .transfer (Sync.refreshFromLocalChain S env)
  let destinations ← (destinationsOf S config params.payees : Except _ _)
  let extra ← (if params.paymentId = "" then .ok []
    else (Extra.ofPaymentId params.paymentId).mapError fun _ => .paymentId params.paymentId
    : Except RpcError Blob)
  let (pending, w) ← onWallet config w .transfer
    (buildSplit S env destinations params.mixin params.unlockTime params.fee extra)
  if !split && pending.length ≠ 1 then
    throw .needsSplit
  return (pending, w)

variable (env) in
/-- A transfer is prepared, and what was prepared is sent. -/
theorem sendTransfer_eq (params : TransferParams) (split : Bool) :
    sendTransfer S env config params split = (do
      let (pending, w) ← prepareTransfer S env config params split
      onWallet config w .transfer (sendAll env pending)) := by
  unfold sendTransfer prepareTransfer
  simp only [bind_assoc]
  refine bind_congr fun w => bind_congr fun followed => bind_congr fun destinations => ?_
  refine bind_congr fun extra => bind_congr fun built => ?_
  split
  · rfl
  · rfl

variable (env) in
/-- Nothing is sent while a transfer is prepared. -/
theorem mute_prepareTransfer (params : TransferParams) (split : Bool) :
    env.Mute (prepareTransfer S env config params split).run := by
  refine .run_bind (mute_pure _) fun w => ?_
  refine .run_bind (mute_refreshFromLocalChain S env config w _) fun followed => ?_
  refine .run_bind (mute_pure _) fun destinations => .run_bind (mute_pure _) fun extra => ?_
  have built (s : Session σ) := (Build.quiet_buildSplit S env destinations params.mixin
    params.unlockTime params.fee extra s).1
  refine .run_bind (mute_onWallet config built _ _) fun built => ?_
  simp only []
  split
  · exact mute_pure _
  · exact mute_pure _

/-- The transactions that are prepared for a transfer, from some state of the environment. -/
def Prepared (env : Environment σ) (params : TransferParams) (split : Bool) (e : σ)
    (pending : List PendingTransaction) : Prop :=
  ∃ w e', (prepareTransfer S env config params split).run.run e = (.ok (pending, w), e')

variable {S config}

/-- A transfer that must not be split has one transaction. -/
theorem Prepared.length_eq {params : TransferParams} {e : σ} {pending : List PendingTransaction}
    (prepared : Prepared S config env params false e pending) : pending.length = 1 := by
  obtain ⟨w, e', run⟩ := prepared
  unfold prepareTransfer at run
  obtain ⟨opened, e₁, -, run⟩ := ExceptT.run_bind_eq_ok.mp run
  obtain ⟨followed, e₂, -, run⟩ := ExceptT.run_bind_eq_ok.mp run
  obtain ⟨destinations, e₃, -, run⟩ := ExceptT.run_bind_eq_ok.mp run
  obtain ⟨extra, e₄, -, run⟩ := ExceptT.run_bind_eq_ok.mp run
  obtain ⟨⟨built, w₅⟩, e₅, -, run⟩ := ExceptT.run_bind_eq_ok.mp run
  -- the parts are counted after they were built, and more than one is refused
  simp only [] at run
  split at run
  · exact nomatch (Prod.mk.inj run).1
  · next one =>
    obtain ⟨rfl, rfl⟩ := Prod.mk.inj (Except.ok.inj (Prod.mk.inj run).1)
    simpa using one

/-- A transfer ends before anything is sent, or the daemon has taken the first ones of the
transactions that were prepared: all of them, or those before one that fails. -/
theorem taken_of_sendTransfer {params : TransferParams} {split : Bool} {s t : σ × List Blob}
    {r : Except RpcError (List Hash × Wallet)}
    (run : (sendTransfer S env.tallied config params split).run.run s = (r, t)) :
    r.isOk = false ∧ t.2 = s.2 ∨
      ∃ pending k, Prepared S config env.tallied params split s pending ∧
        (if r.isOk then k = pending.length else k < pending.length) ∧
        t.2 = s.2 ++ (pending.take k).map fun p => p.tx.toBlob := by
  -- until the sending nothing is taken
  have silent := mute_prepareTransfer S env.tallied config params split s
  rw [sendTransfer_eq, ExceptT.run_bind_cases] at run
  rcases prepared : (prepareTransfer S env.tallied config params split).run.run s
    with ⟨e | ⟨pending, w⟩, u⟩
  all_goals
    rw [prepared] at run silent
    have same : u.2 = s.2 := silent.taken_eq
  · obtain ⟨rfl, rfl⟩ := Prod.mk.inj run
    exact .inl ⟨rfl, same⟩
  · simp only [] at run
    rw [run_onWallet] at run
    rcases sent : exec (sendAll env.tallied pending) (opened config w u) with ⟨result, v⟩
    obtain ⟨k, bound, taken⟩ := taken_of_sendAll sent
    rw [sent] at run
    obtain ⟨rfl, rfl⟩ := Prod.mk.inj run
    refine .inr ⟨pending, k, ⟨w, u, prepared⟩, ?_, by rw [taken, ← same]; rfl⟩
    -- a failed sending leaves out at least one part, a successful one none
    cases result with
    | error e => exact bound
    | ok hashes => exact bound

/-- Some of the transactions that are prepared for a transfer in parts, but not all: the first
ones. -/
def PartlyTaken (S : Suite) (config : Config) (env : Environment σ) (params : TransferParams)
    (e : σ) (taken : List Blob) : Prop :=
  ∃ pending k, Prepared S config env params true e pending ∧ 0 < k ∧ k < pending.length ∧
    taken = (pending.take k).map fun p => p.tx.toBlob

/-- A transfer that fails. Only the parts of one that may be split are taken by then. -/
theorem taken_of_sendTransfer_error {params : TransferParams} {split : Bool} {e : σ}
    {t : σ × List Blob} {error : RpcError}
    (run : (sendTransfer S env.tallied config params split).run.run (e, []) = (.error error, t)) :
    t.2 = [] ∨ split = true ∧ PartlyTaken S config env.tallied params (e, []) t.2 := by
  rcases taken_of_sendTransfer run with ⟨-, none⟩ | ⟨pending, k, prepared, bound, taken⟩
  · exact .inl none
  · replace bound : k < pending.length := bound
    rcases Nat.eq_zero_or_pos k with rfl | some
    · exact .inl taken
    · cases split with
      | false =>
        -- there would have to be more than one transaction
        have one := prepared.length_eq
        omega
      | true => exact .inr ⟨rfl, pending, k, prepared, some, bound, taken⟩

/-- A method that decodes its parameters and makes a transfer. -/
theorem taken_of_decoded_error {params : Json} {split : Bool} {finish : List Hash × Wallet → Json}
    {e : σ} {t : σ × List Blob} {error : RpcError}
    (run : (do
      let decoded ← (decodeParams TransferParams.decoder params : Except _ _)
      let sent ← sendTransfer S env.tallied config decoded split
      return finish sent : RpcM (σ × List Blob) Json).run.run (e, []) = (.error error, t)) :
    t.2 = [] ∨ split = true ∧ ∃ decoded, decodeParams TransferParams.decoder params = .ok decoded ∧
      PartlyTaken S config env.tallied decoded (e, []) t.2 := by
  rw [ExceptT.run_bind_cases] at run
  rcases decodes : decodeParams TransferParams.decoder params with fault | decoded
  · rw [decodes] at run
    obtain ⟨-, rfl⟩ := Prod.mk.inj run
    -- parameters that do not decode are refused before anything is sent
    exact .inl rfl
  · rw [decodes] at run
    replace run : (sendTransfer S env.tallied config decoded split >>= fun sent =>
      pure (finish sent)).run.run (e, []) = (.error error, t) := run
    rw [ExceptT.run_bind_cases] at run
    rcases sending : (sendTransfer S env.tallied config decoded split).run.run (e, [])
      with ⟨fault | sent, u⟩
    · rw [sending] at run
      obtain ⟨-, rfl⟩ := Prod.mk.inj run
      exact (taken_of_sendTransfer_error sending).imp_right fun ⟨parts, partly⟩ =>
        ⟨parts, decoded, rfl, partly⟩
    · -- a transfer that went through is answered, not refused
      rw [sending] at run
      exact nomatch (Prod.mk.inj run).1

/-- A method that fails. -/
theorem taken_of_call_error {method : String} {params : Json} {e : σ} {t : σ × List Blob}
    {error : RpcError}
    (run : (call S env.tallied config method params).run.run (e, []) = (.error error, t)) :
    t.2 = [] ∨ method = "transfer_split" ∧
      ∃ decoded, decodeParams TransferParams.decoder params = .ok decoded ∧
        PartlyTaken S config env.tallied decoded (e, []) t.2 := by
  by_cases whole : method = "transfer"
  · subst whole
    exact (taken_of_decoded_error run).imp_right fun ⟨never, _⟩ => absurd never Bool.false_ne_true
  by_cases parts : method = "transfer_split"
  · subst parts
    exact (taken_of_decoded_error run).imp_right fun ⟨_, partly⟩ => ⟨rfl, partly⟩
  · have silent := mute_call S env.tallied config params whole parts (e, [])
    rw [run] at silent
    exact .inl silent.taken_eq

/-- A request that can be read is answered with the end of its method, if it is answered. -/
theorem run_handle {request : Json} {r : Request} (decodes : Request.fields.decoder request = .ok r)
    (e : σ) : (handle S env config request).run e =
      (answer? r.id ((call S env config r.method r.params).run.run e).1,
        ((call S env config r.method r.params).run.run e).2) := by
  unfold handle
  rw [decodes]
  rfl

/-- A failure after which the program goes on. -/
def refused {α : Type} : Except RpcError α → Bool
  | .ok _ => false
  | .error e => !e.isFatal

/-- What is refused has failed with an error after which the program goes on. -/
theorem exists_of_refused {α : Type} {result : Except RpcError α} (fails : refused result = true) :
    ∃ error, result = .error error ∧ error.isFatal = false := by
  cases result with
  | ok value => cases fails
  | error e => exact ⟨e, rfl, by simpa [refused] using fails⟩

variable (S env config) in
/-- A request for a transfer in parts that cannot be sent. -/
theorem run_handle_of_parts {request id written : Json} {params : TransferParams} (e : σ)
    (decodes : Request.fields.decoder request = .ok ⟨id, "transfer_split", written⟩)
    (decoded : decodeParams TransferParams.decoder written = .ok params)
    (fails : refused ((sendTransfer S env config params true).run.run e).1 = true) :
    (∃ error, ((handle S env config request).run e).1 = some (answer id (.error error))) ∧
      ((handle S env config request).run e).2 =
        ((sendTransfer S env config params true).run.run e).2 := by
  -- the method comes down to the transfer, since the parameters decode
  have called : call S env config "transfer_split" written = transferSplit S env config params := by
    show (liftM (decodeParams TransferParams.decoder written) >>= fun p => _ : RpcM σ Json) = _
    rw [decoded]
    rfl
  rw [run_handle decodes]
  simp only []
  rw [called, transferSplit, ExceptT.run_bind_cases]
  obtain ⟨error, failed, goes_on⟩ := exists_of_refused fails
  rcases run : (sendTransfer S env config params true).run.run e with ⟨fault | sent, t⟩
  · rw [run] at failed
    obtain rfl := Except.error.inj failed
    refine ⟨⟨fault, ?_⟩, rfl⟩
    -- the fault is not fatal, so that it is answered
    show (if fault.isFatal then none else some (answer id (.error fault))) = _
    rw [goes_on]
    rfl
  · rw [run] at failed
    cases failed

/-- An answer that holds an error comes from one. -/
theorem eq_error_of_answer {id id' : Json} {result : Except RpcError Json} {error : RpcError}
    (same : answer? id result = some (answer id' (.error error))) :
    ∃ fault, result = .error fault := by
  cases result with
  | error fault => exact ⟨fault, rfl⟩
  | ok value =>
    unfold answer? answer at same
    simp at same

end Rpc

open Rpc

/-- Whatever the daemon answers, if a request is answered with an error the daemon has taken nothing
that was sent for it, or the request is a `transfer_split` for which several transactions were
built, and the daemon has taken the first ones of them, but not all. -/
theorem taken_of_error (S : Suite) {σ : Type} (env : Environment σ) (config : Config)
    (request : Json) (e : σ) (id : Json) (error : RpcError)
    (fails : ((handle S env.tallied config request).run (e, [])).1 =
      some (answer id (.error error))) :
    ((handle S env.tallied config request).run (e, [])).2.2 = [] ∨
      ∃ r params, Request.fields.decoder request = .ok r ∧
        r.method = "transfer_split" ∧ decodeParams TransferParams.decoder r.params = .ok params ∧
        PartlyTaken S config env.tallied params (e, [])
          ((handle S env.tallied config request).run (e, [])).2.2 := by
  rcases decodes : Request.fields.decoder request with fault | r
  · -- a request that cannot be read calls nothing
    left
    unfold handle
    rw [decodes]
    rfl
  · rw [run_handle decodes] at fails ⊢
    rcases ended : (call S env.tallied config r.method r.params).run.run (e, []) with ⟨result, t⟩
    rw [ended] at fails
    obtain ⟨fault, rfl⟩ := eq_error_of_answer fails
    rcases taken_of_call_error ended with none | ⟨parts, params, decoded, partly⟩
    · exact .inl none
    · exact .inr ⟨r, params, rfl, parts, decoded, partly⟩

/-! ### A transfer in two parts -/

/-- A part of the state that is not empty is read back from its hexadecimal form. -/
theorem Rpc.decodeState_encode {α : Type} {field : StateField} {c : Codec α} (empty : α)
    {bytes : Blob} {a : α} (some : bytes ≠ []) (read : c.read bytes = .ok a) :
    decodeState field c empty (Hex.encode bytes) = .ok a := by
  unfold decodeState
  have written : Hex.encode bytes ≠ "" := fun none => some (Hex.eq_of_encode_eq none)
  rw [if_neg written, Hex.decode_encode]
  show (c.read bytes).mapError _ = _
  rw [read]
  rfl

namespace Parts

open SmallSuite

/-- A daemon that has no blocks, and answers with one status after the other when it is sent a
transaction. -/
def environment : Environment (List String) where
  getBlocks _ := return .ok { status := Daemon.okStatus }
  getIndices _ := return .ok { status := Daemon.busyStatus }
  getDecoys _ := return .ok { status := Daemon.busyStatus }
  send _ statuses := (.ok { status := statuses.headD Daemon.busyStatus }, statuses.tail)
  getHeight := return .ok { status := Daemon.okStatus, height := 0 }
  random statuses := (0, statuses)
  now := return 0
  sleep _ := pure ()
  maxRounds := 1

/-- An output of 1000. -/
def output (sender : Nat) : Transfer :=
  ⟨1, payment sender 1000 [], (payment sender 1000 []).hash .small, 0, 0, false, image sender⟩

/-- Transactions with two inputs are too big. -/
def config : Config := { spendableAge := 1, transactionSizeLimit := 300 }

/-- The address of the account. -/
def address : String :=
  "aeon1qcqqqqqqqqqqqqqqqqqqqqqqqqqqqqqqqqqqqqqqqqqqqqqqqqqqsq" ++
    "qqqqqqqqqqqqqqqqqqqqqqqqqqqqqqqqqqqqqqqqqqqqqqqqq22wazl"

/-- The whole of two outputs, from the account to itself. -/
def params : TransferParams where
  payees := [⟨2000, address⟩]
  fee := 0
  mixin := 0
  unlockTime := 0
  paymentId := ""
  identity :=
    { address
      viewKey := account.keys.viewSecret.hex
      spendKey := (SecretKey.ofScalar (.ofNat 5)).hex
      localHeight := 3
      transfers := Hex.encode (SavedState.transfersCodec.encode [output 3, output 4]) }

def request : Json := .object [("method", .string "transfer_split"), ("params", .object
  [("destinations", .array [.object [("amount", .ofWord 2000), ("address", .string address)]]),
    ("address", .string address), ("view_key", .string params.identity.viewKey),
    ("spend_key", .string params.identity.spendKey), ("local_bc_height", .ofNat 3),
    ("transfers", .string params.identity.transfers)])]

/-- The parameters of the request, as they are written. -/
def written : Json := (Request.fields.decoder request).toOption.elim .null Request.params

/-- The request is well-formed. -/
theorem decoder_request :
    Request.fields.decoder request = .ok ⟨.null, "transfer_split", written⟩ := rfl

/-- The parameters can be read. -/
theorem decodeParams_written : decodeParams TransferParams.decoder written = .ok params := rfl

/-- The daemon takes the first part, and rejects the second one. -/
theorem run_sendTransfer :
    refused ((sendTransfer .small environment.tallied config params true).run.run
      ([Daemon.okStatus, "Failed"], [])).1 = true ∧
    ((sendTransfer .small environment.tallied config params true).run.run
      ([Daemon.okStatus, "Failed"], [])).2.2.length = 1 := by
  have state : decodeState .transfers SavedState.transfersCodec [] params.identity.transfers =
      .ok [output 3, output 4] :=
    decodeState_encode _ (by decide +kernel) (Except.toOption_eq_some.mp (by decide +kernel))
  have own : Address.decode .small params.identity.address config.addressPrefix =
      .ok account.address := Except.toOption_eq_some.mp (by decide +kernel)
  have payees : destinationsOf .small config params.payees = .ok [⟨2000, account.address⟩] :=
    Except.toOption_eq_some.mp (by decide +kernel)
  -- what is written in the request is read, and the rest is computed
  unfold sendTransfer openWallet
  rw [state, own, payees]
  exact ⟨by decide +kernel, by decide +kernel⟩

/-- The first part is taken, and the answer is an error. -/
theorem run_handle_request : ∃ error,
    ((handle .small environment.tallied config request).run ([Daemon.okStatus, "Failed"], [])).1 =
      some (answer .null (.error error)) ∧
    ((handle .small environment.tallied config request).run
      ([Daemon.okStatus, "Failed"], [])).2.2.length = 1 := by
  obtain ⟨fails, taken⟩ := run_sendTransfer
  obtain ⟨⟨error, answered⟩, same⟩ := run_handle_of_parts .small environment.tallied config
    ([Daemon.okStatus, "Failed"], []) decoder_request decodeParams_written fails
  rw [same]
  exact ⟨error, answered, taken⟩

end Parts

open Parts in
/-- The daemon takes the first one of two transactions and rejects the second one. What it has taken
is the first part of what was prepared. -/
theorem taken_of_error_parts : ∃ error,
    ((handle .small environment.tallied config request).run ([Daemon.okStatus, "Failed"], [])).1 =
      some (answer .null (.error error)) ∧
    PartlyTaken .small config environment.tallied params ([Daemon.okStatus, "Failed"], [])
      ((handle .small environment.tallied config request).run
        ([Daemon.okStatus, "Failed"], [])).2.2 := by
  obtain ⟨error, fails, one⟩ := run_handle_request
  refine ⟨error, fails, ?_⟩
  rcases taken_of_error .small environment config request _ .null error fails with
    none | ⟨r, p, decodes, -, decoded, partly⟩
  · rw [none] at one
    cases one
  · obtain rfl := Except.ok.inj (decoder_request.symm.trans decodes)
    obtain rfl := Except.ok.inj (decodeParams_written.symm.trans decoded)
    exact partly

open Parts in
/-- An error does not mean that nothing is taken: one of the two transactions is. -/
theorem taken_despite_error :
    ¬ ∀ (request : Json) (r : Request) (e : List String) (error : RpcError),
      Request.fields.decoder request = .ok r → r.method ∈ ["transfer", "transfer_split"] →
      ((handle .small environment.tallied config request).run (e, [])).1 =
        some (answer r.id (.error error)) →
      ((handle .small environment.tallied config request).run (e, [])).2.2 = [] := by
  intro nothing
  obtain ⟨error, fails, one⟩ := run_handle_request
  rw [nothing request _ _ error decoder_request (by simp) fails] at one
  cases one

end RingWallet
