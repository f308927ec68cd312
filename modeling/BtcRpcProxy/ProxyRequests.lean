import BtcRpcProxy.BatchRefusal
import BtcRpcProxy.ProxyCore

/-!
What reaches bitcoind on behalf of clients: nothing but requests whose method, as it is
written in the posted body, the authenticated user may call.
-/

namespace BtcRpcProxy

open Polled

/-- The JSON-RPC objects in a body: the body itself or the elements of a batch. -/
def rpcObjects : Json → List Json
  | .array elements => elements
  | element => [element]

theorem rpcObjects_encode (request : RpcRequest) : rpcObjects request.encode = [request.encode] := rfl

/-- The object has exactly one member called `method`, and the user may call what it names. -/
def CallsAllowed (user : User) (object : Json) : Prop :=
  ∃ members method, object = .object members ∧
    (members.filter fun member => member.1 = "method") = [("method", .string method)] ∧
    user.allows method = true

theorem encode_callsAllowed {user : User} {request : RpcRequest}
    (allowed : user.allows request.method = true) : CallsAllowed user request.encode := by
  refine ⟨_, request.method, rfl, ?_, allowed⟩
  cases request.jsonrpc <;> cases request.id <;> rfl

/-! What `send` posts. -/

def RpcClient.SendsTo (client : RpcClient) (path : String) (posted : Forward) : Prop :=
  ∃ pathAndQuery, client.parsePath path = .ok pathAndQuery ∧ client.fromParts pathAndQuery = .ok posted.uri

section

variable {client : RpcClient} {path : String} {posted : Forward}

theorem forwardSingle_posts {request : RpcRequest}
    (member : posted ∈ forwards (client.forwardSingle path request).log) :
    posted.body = request.encode ∧ client.SendsTo path posted := by
  rw [mem_forwards] at member
  unfold RpcClient.forwardSingle at member
  split at member
  · simp at member
  · rename_i pathAndQuery parsed
    rcases Future.mem_log_bind member with loading | ⟨loaded, _, later⟩
    · simp at loading
    · split at later
      · simp at later
      · split at later
        · simp at later
        · rename_i uri built
          simp only [post_log, List.mem_singleton, Effect.forward.injEq] at later
          rw [later]
          exact ⟨rfl, pathAndQuery, parsed, built⟩

theorem sendBatch_posts {forwarded : List Placed}
    (member : posted ∈ forwards (client.sendBatch path forwarded).log) :
    posted.body = .array (forwarded.map fun entry => entry.2.encode) ∧ client.SendsTo path posted := by
  rw [mem_forwards] at member
  unfold RpcClient.sendBatch at member
  split at member
  · simp at member
  · rename_i pathAndQuery parsed
    rcases Future.mem_log_bind member with loading | ⟨loaded, _, later⟩
    · simp at loading
    · split at later
      · simp at later
      · split at later
        · simp at later
        · rename_i uri built
          rcases Future.mem_log_bind later with posting | ⟨answer, _, reading⟩
          · simp only [post_log, List.mem_singleton, Effect.forward.injEq] at posting
            rw [posting]
            exact ⟨rfl, pathAndQuery, parsed, built⟩
          · rw [readReplies_log] at reading
            simp at reading

theorem answerBatch_posts {requests : List RpcRequest} {completed : Completed}
    (member : posted ∈ forwards (client.answerBatch path requests completed).log) :
    posted.body = .array ((forwardedOf completed).map fun entry => entry.2.encode) ∧
      client.SendsTo path posted := by
  rw [mem_forwards, RpcClient.answerBatch, Future.log_map] at member
  rcases Future.mem_log_tryJoin member with sending | collecting
  · exact sendBatch_posts (mem_forwards.mpr sending)
  · simp at collecting

theorem send_forwards {schedule : List Nat} {request : SingleOrBatchRpcRequest}
    {intercept : Nat → RpcRequest → Future InternalCall Outcome}
    {run : Future Effect (Except AnyhowError HttpResponse)}
    (complete : client.send schedule path request intercept = some run)
    (member : posted ∈ forwards run.log) :
    client.SendsTo path posted ∧ ∀ object ∈ rpcObjects posted.body,
      ∃ place left, object = left.encode ∧ (intercept place left).value = some (.ok none) := by
  cases request with
  | single request =>
      simp only [RpcClient.send, Option.some.injEq] at complete
      subst complete
      rw [mem_forwards] at member
      rcases Future.mem_log_bind member with intercepting | ⟨outcome, settles, later⟩
      · simp at intercepting
      · rw [Future.value_mapEffect] at settles
        split at later
        · obtain ⟨isBody, sendsTo⟩ := forwardSingle_posts (mem_forwards.mpr later)
          refine ⟨sendsTo, fun object isObject => ?_⟩
          rw [isBody, rpcObjects_encode, List.mem_singleton] at isObject
          exact ⟨0, request, isObject, settles⟩
        · simp at later
        · simp at later
  | batch requests =>
      obtain ⟨many, isRun, rfl⟩ := Option.map_eq_some_iff.mp complete
      rw [Future.log_map] at member
      rcases sendMany_run isRun with ⟨completed, _, settled, _, isLog⟩ | ⟨_, _, isLog, _⟩
      · rw [isLog] at member
        obtain ⟨isBody, sendsTo⟩ := answerBatch_posts member
        refine ⟨sendsTo, fun object isObject => ?_⟩
        rw [isBody] at isObject
        obtain ⟨key, isForwarded, rfl⟩ := List.mem_map.mp isObject
        rw [forwardedOf_eq_filterMap, List.mem_filterMap] at isForwarded
        obtain ⟨entry, isEntry, isKey⟩ := isForwarded
        split at isKey
        · rename_i left
          simp only [Option.some.injEq] at isKey
          refine ⟨key.1, key.2, rfl, ?_⟩
          rw [← isKey, (settled.outcome isEntry).2, left]
        · simp at isKey
      · rw [isLog] at member
        simp at member

end

/-! What the proxy posts. -/

def Authenticates (state : State) (request : HttpRequest) (name : String) (user : User) : Prop :=
  ∃ header, request.authorization = some header ∧
    state.users.get state.credentials header = some (some (name, user))

theorem serve_forwards {state : State} {schedule : List Nat} {path : String} {user : User}
    {read : Except AnyhowError (List UInt8)} {answer : Future Effect (Except AnyhowError HttpResponse)}
    (served : state.serve schedule path user read = some answer) {posted : Forward}
    (member : posted ∈ forwards answer.log) {object : Json} (isObject : object ∈ rpcObjects posted.body) :
    CallsAllowed user object := by
  unfold State.serve at served
  split at served
  · simp only [Option.some.injEq] at served
    simp [← served] at member
  · split at served
    · simp only [Option.some.injEq] at served
      simp [← served] at member
    · obtain ⟨place, left, rfl, settles⟩ := (send_forwards served member).2 object isObject
      exact encode_callsAllowed (allows_of_forwards (intercept_forwards_iff.mp settles))

theorem proxyRequest_authenticated {state : State} {schedule : List Nat} {request : HttpRequest}
    {run : Future Effect (Except AnyhowError HttpResponse)}
    (complete : state.proxyRequest schedule request = some run) {posted : Forward}
    (member : posted ∈ forwards run.log) :
    ∃ name user, Authenticates state request name user ∧ ∃ read answer,
      state.serve schedule request.path user read = some answer ∧ posted ∈ forwards answer.log := by
  unfold State.proxyRequest at complete
  split at complete
  · split at complete
    · split at complete
      · simp only [Option.some.injEq] at complete
        simp [← complete, Future.log] at member
      · simp only [Option.some.injEq] at complete
        simp [← complete] at member
      · rename_i name user found
        have authenticates : Authenticates state request name user := by
          cases isHeader : request.authorization with
          | none => simp [isHeader] at found
          | some header => exact ⟨header, isHeader, by simpa [isHeader] using found⟩
        split at complete
        · simp only [Option.some.injEq] at complete
          simp [← complete, Future.log] at member
        · rename_i read isRead
          obtain ⟨answer, served, rfl⟩ := Option.map_eq_some_iff.mp complete
          rw [Future.log_bind, Future.log_silent, Future.value_silent, isRead] at member
          exact ⟨name, user, authenticates, read, answer, served, by simpa using member⟩
    · simp only [Option.some.injEq] at complete
      simp [← complete] at member
  · simp only [Option.some.injEq] at complete
    simp [← complete] at member

/-- Everything posted for a request is an allowed call of the user whom its header
authenticates; nothing is posted when that is nobody. -/
theorem proxyRequest_posts_allowed {state : State} {schedule : List Nat} {request : HttpRequest}
    {run : Future Effect (Except AnyhowError HttpResponse)}
    (complete : state.proxyRequest schedule request = some run) :
    (∀ posted ∈ forwards run.log, ∃ name user, Authenticates state request name user ∧
      ∀ object ∈ rpcObjects posted.body, CallsAllowed user object) ∧
    ((∀ name user, ¬Authenticates state request name user) → forwards run.log = []) := by
  constructor
  · intro posted member
    obtain ⟨name, user, authenticates, read, answer, served, inAnswer⟩ :=
      proxyRequest_authenticated complete member
    exact ⟨name, user, authenticates, fun object isObject => serve_forwards served inAnswer isObject⟩
  · intro nobody
    rw [List.eq_nil_iff_forall_not_mem]
    intro posted member
    obtain ⟨name, user, authenticates, _⟩ := proxyRequest_authenticated complete member
    exact nobody name user authenticates

/-- The request reaches bitcoind's client, with these calls and as this user. -/
structure Sends (state : State) (http : HttpRequest) (name : String) (user : User)
    (calls : SingleOrBatchRpcRequest) : Prop where
  path : State.handlesPath http.path = true
  method : http.method = "POST"
  authenticates : Authenticates state http name user
  calls : ∃ read, http.body.value = some (.ok read) ∧ state.decodeRequest read = .ok calls

theorem proxyRequest_sends (state : State) (http : HttpRequest) :
    (∃ run, run.log = [] ∧ ∀ schedule, state.proxyRequest schedule http = some run) ∨
      ∃ name user calls, Sends state http name user calls ∧ ∀ schedule, state.proxyRequest schedule http =
        (state.rpcClient.send schedule (State.walletPath user http.path) calls fun place =>
          user.intercept (state.upstream place)).map fun answer => http.body.silent.bind fun _ => answer := by
  unfold State.proxyRequest
  split
  · rename_i path
    split
    · rename_i method
      split
      · exact Or.inl ⟨_, rfl, fun _ => rfl⟩
      · exact Or.inl ⟨_, rfl, fun _ => rfl⟩
      · rename_i name user found
        have authenticates : Authenticates state http name user := by
          cases isHeader : http.authorization with
          | none => simp [isHeader] at found
          | some header => exact ⟨header, isHeader, by simpa [isHeader] using found⟩
        split
        · exact Or.inl ⟨_, rfl, fun _ => rfl⟩
        · rename_i read isRead
          have silent (answer : Except AnyhowError HttpResponse) :
              (http.body.silent.bind fun _ => Future.pure answer : Future Effect _).log = [] := by
            simp [Future.log_bind, isRead]
          unfold State.serve
          cases read with
          | error error => exact Or.inl ⟨_, silent (.error error), fun _ => rfl⟩
          | ok body =>
              cases decoded : state.decodeRequest body with
              | error error =>
                  exact Or.inl ⟨_, silent (.ok (RpcResponse.ofError error).intoResponse),
                    fun _ => by simp only [decoded, Option.map_some]⟩
              | ok calls =>
                  exact Or.inr ⟨name, user, calls, ⟨path, beq_iff_eq.mp method, authenticates, body, isRead, decoded⟩,
                    fun _ => by simp only [decoded]⟩
    · exact Or.inl ⟨_, rfl, fun _ => rfl⟩
  · exact Or.inl ⟨_, rfl, fun _ => rfl⟩

theorem Sends.proxyRequest_eq {state : State} {http : HttpRequest} {name : String} {user : User}
    {calls : SingleOrBatchRpcRequest} (sent : Sends state http name user calls) (schedule : List Nat) :
    state.proxyRequest schedule http =
      (state.rpcClient.send schedule (State.walletPath user http.path) calls fun place =>
        user.intercept (state.upstream place)).map fun answer => http.body.silent.bind fun _ => answer := by
  obtain ⟨path, method, ⟨header, isHeader, isUser⟩, body, isBody, decoded⟩ := sent
  simp only [State.proxyRequest, path, method, isHeader, Option.map_some, isUser, Option.getD_some, isBody,
    State.serve, decoded, beq_self_eq_true, if_true]

/-! A payment over HTTP. -/

def paymentText : JsonText :=
  .object [("method".toList.map fun char => { escaped := false, char }, .string
      ("sendtoaddress".toList.map fun char => { escaped := false, char })),
    ("params".toList.map fun char => { escaped := false, char }, .array [])]

def paymentBody : List UInt8 := utf8Bytes "\x7b\"method\":\"sendtoaddress\",\"params\":[]\x7d"

def paymentState : State :=
  { rpcClient := slowNode (Future.pure (.ok [])),
    users := [("pay", payer)],
    credentials :=
      { cookiePassword := fun _ => none,
        hmacSha256 := fun _ _ => [],
        base64Decode := fun text => if text = "cGF5OnNlY3JldA==" then some (utf8Bytes "pay:secret") else none },
    upstream := fun _ => noUpstream,
    parseText := fun bytes => if bytes = paymentBody then some paymentText else none,
    requestError := fun _ => "expected value at line 1 column 1" }

def paymentHttp : HttpRequest :=
  { path := "/", method := "POST", authorization := some (utf8Bytes "Basic cGF5OnNlY3JldA=="),
    body := Future.pure (.ok paymentBody) }

theorem proxyRequest_posts_payment :
    ∃ run, paymentState.proxyRequest [] paymentHttp = some run ∧
      (forwards run.log).map Forward.body =
        [.object [("method", .string "sendtoaddress"), ("params", .array [])]] ∧
      ∀ posted ∈ forwards run.log, ∃ name user, Authenticates paymentState paymentHttp name user ∧
        ∀ object ∈ rpcObjects posted.body, CallsAllowed user object := by
  have bodies : ((paymentState.proxyRequest [] paymentHttp).map fun run =>
      (forwards run.log).map Forward.body) =
        some [.object [("method", .string "sendtoaddress"), ("params", .array [])]] := by
    decide +kernel
  obtain ⟨run, isRun, isBody⟩ := Option.map_eq_some_iff.mp bodies
  exact ⟨run, isRun, isBody, (proxyRequest_posts_allowed isRun).1⟩

end BtcRpcProxy
