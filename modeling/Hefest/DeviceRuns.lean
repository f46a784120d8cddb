import Hefest.Devices

set_option autoImplicit false

namespace Hefest
open Slices Transition Recipients

def FleetNote.posted? (push : ℕ) : FleetNote → Option (List PushMessage)
  | .posted p messages => if p = push then some messages else none
  | _ => none

/-- The answer to a batch of this push, and the tokens deleted for it. -/
def FleetNote.answered? (push : ℕ) : FleetNote → Option (Option ExpoResponse × List String)
  | .answered p reply dead => if p = push then some (reply, dead) else none
  | _ => none

def postedBy (push : ℕ) (trace : List FleetNote) : List (List PushMessage) :=
  trace.filterMap (FleetNote.posted? push)

def answeredBy (push : ℕ) (trace : List FleetNote) : List (Option ExpoResponse × List String) :=
  trace.filterMap (FleetNote.answered? push)

def repliesTo (push : ℕ) (trace : List FleetNote) (k : ℕ) : Option ExpoResponse :=
  ((answeredBy push trace)[k]?).bind Prod.fst

def deletedBy (push : ℕ) (trace : List FleetNote) : List String :=
  (answeredBy push trace).flatMap Prod.snd

def PushCall.run (call : PushCall) (replies : ℕ → Option ExpoResponse) (devices : List Device) :
    PushRun :=
  sendToTokens replies call.content call.data call.tokens devices

def Answers (replies : ℕ → Option ExpoResponse)
    (answers : List (Option ExpoResponse × List String)) : Prop :=
  ∀ k answer, answers[k]? = some answer → replies k = answer.1

/-- What has been done is what `send_to_tokens` does before the batches at `indices`. -/
def PushCall.Sending (call : PushCall) (indices : List ℕ) (posted : List (List PushMessage))
    (answers : List (Option ExpoResponse × List String)) : Prop :=
  ∀ replies devices, Answers replies answers → ∃ run : PushRun, run.posted = posted ∧
    run.deleted = answers.flatMap Prod.snd ∧ run.raised = none ∧
      call.run replies devices =
        sendBatches replies call.content call.data call.tokens indices run

def PushCall.Sent (call : PushCall) (posted : List (List PushMessage))
    (answers : List (Option ExpoResponse × List String)) (raised : Option PushError) : Prop :=
  ∀ replies devices, Answers replies answers → (call.run replies devices).posted = posted ∧
    (call.run replies devices).deleted = answers.flatMap Prod.snd ∧
      (call.run replies devices).raised = raised

inductive PushRecord : PushStage → List (List PushMessage) →
    List (Option ExpoResponse × List String) → Prop
  | loading : PushRecord .loading [] []
  | skipped : PushRecord .skipped [] []
  | posting {call : PushCall} {start : ℕ} {rest : List ℕ} {posted : List (List PushMessage)}
      {answers : List (Option ExpoResponse × List String)} (even : posted.length = answers.length)
      (sending : call.Sending (start :: rest) posted answers) :
      PushRecord (.posting call start rest) posted answers
  | awaiting {call : PushCall} {start : ℕ} {rest : List ℕ} {posted : List (List PushMessage)}
      {answers : List (Option ExpoResponse × List String)} (even : posted.length = answers.length)
      (sending : call.Sending (start :: rest) posted answers) :
      PushRecord (.awaiting call start rest)
        (posted ++ [pushMessages call.content call.data (call.batch start)]) answers
  | ended {call : PushCall} {raised : Option PushError} {posted : List (List PushMessage)}
      {answers : List (Option ExpoResponse × List String)}
      (sent : call.Sent posted answers raised) : PushRecord (.ended call raised) posted answers

section Batch
variable {replies : ℕ → Option ExpoResponse} {content : PushTemplates.PushContent} {data : Json}
  {run : PushRun} {tokens dead : List String}

theorem PushRun.prune_deleted : (run.prune dead).deleted = run.deleted ++ dead := by
  unfold PushRun.prune
  split
  · rename_i hnil
    rw [hnil, List.append_nil]
  · rfl

variable (content data) in
theorem sendBatch_raised {error : PushError}
    (h : batchOutcome tokens (replies run.posted.length) = .error error) :
    sendBatch replies content data run tokens =
      { run with posted := run.posted ++ [pushMessages content data tokens],
                 raised := some error } := by
  unfold batchOutcome at h
  cases hread : readTickets (replies run.posted.length) with
  | error found =>
    rw [hread] at h
    simp only at h
    split_ifs at h with hswallowed
    cases h
    simp only [sendBatch, hread, if_neg hswallowed]
  | ok tickets =>
    rw [hread] at h
    cases hhandle : handleTickets tokens tickets with
    | error found =>
      simp only [hhandle, Except.mapError] at h
      cases h
      simp only [sendBatch, hread, hhandle]
    | ok found =>
      simp only [hhandle, Except.mapError] at h
      cases h

variable (content data) in
theorem sendBatch_returned (h : batchOutcome tokens (replies run.posted.length) = .ok dead) :
    sendBatch replies content data run tokens =
      PushRun.prune { run with posted := run.posted ++ [pushMessages content data tokens] }
        dead := by
  unfold batchOutcome at h
  cases hread : readTickets (replies run.posted.length) with
  | error found =>
    rw [hread] at h
    simp only at h
    split_ifs at h with hswallowed
    cases h
    simp only [sendBatch, hread, if_pos hswallowed, PushRun.prune, if_true]
  | ok tickets =>
    rw [hread] at h
    cases hhandle : handleTickets tokens tickets with
    | error found =>
      simp only [hhandle, Except.mapError] at h
      cases h
    | ok found =>
      simp only [hhandle, Except.mapError] at h
      cases h
      simp only [sendBatch, hread, hhandle]

variable (replies content data tokens) in
theorem sendBatches_first (start : ℕ) (rest : List ℕ) (run : PushRun)
    (hmore : ∀ next : PushRun, next.posted <+:
      (sendBatches replies content data tokens rest next).posted) :
    run.posted ++ [pushMessages content data (slice maxTokensPerRequest tokens start)] <+:
      (sendBatches replies content data tokens (start :: rest) run).posted := by
  rw [← sendBatch_posted]
  by_cases hraised :
      (sendBatch replies content data run (slice maxTokensPerRequest tokens start)).raised = none
  · rw [sendBatches_cons_ok hraised]
    exact hmore _
  · rw [sendBatches_cons_raised hraised]

variable (replies content data tokens) in
theorem sendBatches_grows (indices : List ℕ) (run : PushRun) :
    run.posted <+: (sendBatches replies content data tokens indices run).posted := by
  induction indices generalizing run with
  | nil => exact List.prefix_rfl
  | cons start rest ih =>
    exact (List.prefix_append _ _).trans
      (sendBatches_first replies content data tokens start rest run ih)

variable (replies content data tokens) in
/-- Raising or not, no batch is posted that is not there and none out of order. -/
theorem sendBatches_within (indices : List ℕ) (run : PushRun) :
    (sendBatches replies content data tokens indices run).posted <+:
      run.posted ++ indices.map fun start =>
        pushMessages content data (slice maxTokensPerRequest tokens start) := by
  induction indices generalizing run with
  | nil => exact List.prefix_append _ _
  | cons start rest ih =>
    by_cases hraised :
        (sendBatch replies content data run (slice maxTokensPerRequest tokens start)).raised = none
    · have hall := ih (sendBatch replies content data run (slice maxTokensPerRequest tokens start))
      rw [sendBatch_posted, List.append_assoc, List.singleton_append] at hall
      rw [sendBatches_cons_ok hraised]
      exact hall
    · rw [sendBatches_cons_raised hraised, sendBatch_posted]
      exact (List.prefix_append_right_inj _).mpr ⟨_, rfl⟩

theorem recipients_of_batches (content : PushTemplates.PushContent) (data : Json)
    (tokens : List String) :
    ((starts maxTokensPerRequest tokens.length).map fun start =>
      pushMessages content data (slice maxTokensPerRequest tokens start)).flatten.map
        PushMessage.to_ = tokens := by
  have hto : List.map PushMessage.to_ ∘ pushMessages content data = id := by
    funext batch
    rw [Function.comp_apply, pushMessages, List.map_map]
    exact List.map_id batch
  have hbatches : (starts maxTokensPerRequest tokens.length).map (fun start =>
      pushMessages content data (slice maxTokensPerRequest tokens start)) =
        ((starts maxTokensPerRequest tokens.length).map (slice maxTokensPerRequest tokens)).map
          (pushMessages content data) := by
    rw [List.map_map]
    rfl
  rw [hbatches, List.map_flatten, List.map_map, hto, List.map_id]
  exact flatten_starts (by decide)

end Batch

section Records
variable {call : PushCall} {start : ℕ} {rest : List ℕ} {posted : List (List PushMessage)}
  {answers : List (Option ExpoResponse × List String)} {reply : Option ExpoResponse}
  {dead : List String}

theorem PushCall.sending_start (hne : call.tokens ≠ []) :
    call.Sending (starts maxTokensPerRequest call.tokens.length) [] [] := by
  intro replies devices _
  refine ⟨{ devices := devices }, rfl, rfl, rfl, ?_⟩
  rw [PushCall.run, sendToTokens, if_neg hne]

theorem PushCall.Sending.next (h : call.Sending rest posted answers)
    (even : posted.length = answers.length) : PushRecord (call.next rest) posted answers := by
  cases rest with
  | cons start rest => exact .posting even h
  | nil =>
    refine .ended fun replies devices hreplies => ?_
    obtain ⟨run, hposted, hdeleted, hraised, hrun⟩ := h replies devices hreplies
    rw [hrun]
    exact ⟨hposted, hdeleted, hraised⟩

theorem Answers.init {replies : ℕ → Option ExpoResponse}
    (h : Answers replies (answers ++ [(reply, dead)])) :
    Answers replies answers ∧ replies answers.length = reply := by
  refine ⟨fun k answer hk => h k answer ?_, h answers.length (reply, dead) ?_⟩
  · obtain ⟨hlt, -⟩ := List.getElem?_eq_some_iff.mp hk
    rw [List.getElem?_append_left hlt]
    exact hk
  · rw [List.getElem?_append_right le_rfl, Nat.sub_self]
    rfl

theorem PushCall.Sending.raised {error : PushError}
    (h : call.Sending (start :: rest) posted answers) (even : posted.length = answers.length)
    (outcome : batchOutcome (call.batch start) reply = .error error) :
    PushRecord (.ended call (some error))
      (posted ++ [pushMessages call.content call.data (call.batch start)])
      (answers ++ [(reply, [])]) := by
  refine .ended fun replies devices hreplies => ?_
  obtain ⟨hbefore, hreply⟩ := hreplies.init
  obtain ⟨run, rfl, hdeleted, -, hrun⟩ := h replies devices hbefore
  rw [← hreply, ← even] at outcome
  have hbatch := sendBatch_raised call.content call.data outcome
  rw [PushCall.batch] at hbatch
  have hraises : (sendBatch replies call.content call.data run
      (slice maxTokensPerRequest call.tokens start)).raised ≠ none := by
    rw [hbatch]
    exact Option.some_ne_none error
  rw [hrun, sendBatches_cons_raised hraises, hbatch]
  refine ⟨rfl, ?_, rfl⟩
  simpa using hdeleted

theorem PushCall.Sending.returned (h : call.Sending (start :: rest) posted answers)
    (even : posted.length = answers.length)
    (outcome : batchOutcome (call.batch start) reply = .ok dead) :
    PushRecord (call.next rest)
      (posted ++ [pushMessages call.content call.data (call.batch start)])
      (answers ++ [(reply, dead)]) := by
  have hsending : call.Sending rest
      (posted ++ [pushMessages call.content call.data (call.batch start)])
      (answers ++ [(reply, dead)]) := by
    intro replies devices hreplies
    obtain ⟨hbefore, hreply⟩ := hreplies.init
    obtain ⟨run, rfl, hdeleted, hraised, hrun⟩ := h replies devices hbefore
    have houtcome : batchOutcome (call.batch start) (replies run.posted.length) = .ok dead := by
      rw [even, hreply]
      exact outcome
    have hbatch := sendBatch_returned call.content call.data houtcome
    rw [PushCall.batch] at hbatch
    have hnone : (sendBatch replies call.content call.data run
        (slice maxTokensPerRequest call.tokens start)).raised = none := by
      rw [hbatch, PushRun.prune_raised]
      exact hraised
    refine ⟨_, ?_, ?_, hnone, hrun.trans (sendBatches_cons_ok hnone)⟩
    · rw [hbatch, PushRun.prune_posted]
      rfl
    · rw [hbatch, PushRun.prune_deleted, hdeleted]
      simp
  exact hsending.next (by simp [even])

theorem PushCall.run_within (call : PushCall) (replies : ℕ → Option ExpoResponse)
    (devices : List Device) :
    (call.run replies devices).posted <+: (starts maxTokensPerRequest call.tokens.length).map
      fun start => pushMessages call.content call.data (call.batch start) := by
  rw [PushCall.run, sendToTokens]
  split_ifs
  · exact List.nil_prefix
  · exact sendBatches_within replies call.content call.data call.tokens _ { devices := devices }

theorem PushRecord.recipients {stage : PushStage} (h : PushRecord stage posted answers)
    (hcall : stage.call? = some call) :
    posted.flatten.map PushMessage.to_ <+: call.tokens := by
  have hanswers : Answers (fun k => (answers[k]?).bind Prod.fst) answers := by
    intro k answer hk
    simp only [hk, Option.bind_some]
  have hrun : posted <+: (call.run (fun k => (answers[k]?).bind Prod.fst) []).posted := by
    cases h with
    | loading => cases hcall
    | skipped => cases hcall
    | posting even sending =>
      cases hcall
      obtain ⟨run, rfl, -, -, hrun⟩ := sending _ [] hanswers
      rw [hrun]
      exact sendBatches_grows _ _ _ _ _ run
    | awaiting even sending =>
      cases hcall
      obtain ⟨run, rfl, -, -, hrun⟩ := sending _ [] hanswers
      rw [hrun]
      exact sendBatches_first _ _ _ _ _ _ run (sendBatches_grows _ _ _ _ _)
    | ended sent =>
      cases hcall
      rw [(sent _ [] hanswers).1]
  obtain ⟨later, hlater⟩ := hrun.trans (call.run_within _ [])
  have hall := recipients_of_batches call.content call.data call.tokens
  unfold PushCall.batch at hlater
  rw [← hlater, List.flatten_append, List.map_append] at hall
  exact ⟨_, hall⟩

end Records

def RegisteredTo (start : List DeviceRow) (log : List FleetNote) (user : UUID) (token : String) :
    Prop :=
  ∃ d : DeviceRow, d.userId = user ∧ d.expoPushToken = token ∧
    Since (d ∈ start) (fun note => note = .registered d) d.EndedBy log

/-- The push has loaded the tokens, each of them once, that were its recipient's at that moment. -/
def Loaded (start : List DeviceRow) (log : List FleetNote) (push : ℕ) (user : UUID)
    (tokens : List String) : Prop :=
  ∃ earlier between, log = earlier ++ .loaded push user tokens :: between ∧ tokens.Nodup ∧
    ∀ token, token ∈ tokens ↔ RegisteredTo start earlier user token

def GoesToLoaded (start : List DeviceRow) (before : List FleetNote) (note : FleetNote) : Prop :=
  ∀ push messages, note = .posted push messages → ∃ user tokens,
    Loaded start before push user tokens ∧ ∀ message ∈ messages, message.to_ ∈ tokens

structure PushTask.Logged (start : List DeviceRow) (log : List FleetNote) (push : ℕ)
    (task : PushTask) : Prop where
  record : PushRecord task.stage (postedBy push log) (answeredBy push log)
  called : ∀ call, task.stage.call? = some call →
    PushTemplates.render task.job.eventType task.recipient.event task.job.payload =
        .ok call.content ∧
      Loaded start log push task.recipient.user.id call.tokens

structure FleetLogged (start : List DeviceRow) (log : List FleetNote) (fleet : Fleet) : Prop where
  unique : UniqueDevices fleet.devices
  held : ∀ d, d ∈ fleet.devices ↔
    Since (d ∈ start) (fun note => note = .registered d) d.EndedBy log
  pushes : ∀ (push : ℕ) (task : PushTask), fleet.pushes[push]? = some task →
    task.Logged start log push
  /-- Of a push that has not begun the log says nothing. -/
  unbegun : ∀ push, fleet.pushes.length ≤ push → postedBy push log = [] ∧ answeredBy push log = []
  addressed : Reasoned (GoesToLoaded start) log

section Notes
variable {start : List DeviceRow} {log : List FleetNote} {push : ℕ} {note : FleetNote}

theorem Loaded.more {user : UUID} {tokens : List String} (h : Loaded start log push user tokens)
    (notes : List FleetNote) : Loaded start (log ++ notes) push user tokens := by
  obtain ⟨earlier, between, rfl, hnodup, htokens⟩ := h
  exact ⟨earlier, between ++ notes, by simp, hnodup, htokens⟩

theorem postedBy_concat :
    postedBy push (log ++ [note]) = postedBy push log ++ (note.posted? push).toList := by
  cases h : note.posted? push <;> simp [postedBy, h]

theorem answeredBy_concat :
    answeredBy push (log ++ [note]) = answeredBy push log ++ (note.answered? push).toList := by
  cases h : note.answered? push <;> simp [answeredBy, h]

def FleetNote.Quiet (push : ℕ) (note : FleetNote) : Prop :=
  note.posted? push = none ∧ note.answered? push = none

theorem PushTask.Logged.quiet {task : PushTask} (h : task.Logged start log push)
    (quiet : note.Quiet push) : task.Logged start (log ++ [note]) push where
  record := by
    rw [postedBy_concat, answeredBy_concat, quiet.1, quiet.2]
    simpa using h.record
  called call hcall := ⟨(h.called call hcall).1, (h.called call hcall).2.more [note]⟩

end Notes

section Steps
variable {start : List DeviceRow} {log : List FleetNote} {fleet next : Fleet} {push : ℕ}
  {task : PushTask} {call : PushCall} {first : ℕ} {rest : List ℕ} {note : FleetNote}

theorem FleetLogged.move {stage : PushStage} (h : FleetLogged start log fleet)
    (hmove : FleetMove fleet next [note]) (found : fleet.pushes[push]? = some task)
    (hpushes : next.pushes = fleet.pushes.set push { task with stage := stage })
    (quiet : ∀ other, other ≠ push → note.Quiet other)
    (hlogged : PushTask.Logged start (log ++ [note]) push { task with stage := stage })
    (haddressed : GoesToLoaded start log note) : FleetLogged start (log ++ [note]) next := by
  obtain ⟨hunique, hrows⟩ := hmove.devices h.unique
  obtain ⟨hlt, -⟩ := List.getElem?_eq_some_iff.mp found
  refine ⟨hunique, fun d => ?_, fun other moved hother => ?_, fun other hother => ?_,
    h.addressed.concat haddressed⟩
  · rw [hrows d, h.held d, ← since_append]
  · rw [hpushes, List.getElem?_set] at hother
    split_ifs at hother with hsame
    · cases hother
      exact hsame ▸ hlogged
    · exact (h.pushes other moved hother).quiet (quiet other (Ne.symm hsame))
  · rw [hpushes, List.length_set] at hother
    have hne : other ≠ push := by omega
    obtain ⟨hposted, hanswered⟩ := h.unbegun other hother
    rw [postedBy_concat, answeredBy_concat, hposted, hanswered, (quiet other hne).1,
      (quiet other hne).2]
    exact ⟨rfl, rfl⟩

theorem FleetLogged.route (h : FleetLogged start log fleet) (hmove : FleetMove fleet next [note])
    (hpushes : next.pushes = fleet.pushes) (quiet : ∀ push, note.Quiet push) :
    FleetLogged start (log ++ [note]) next := by
  obtain ⟨hunique, hrows⟩ := hmove.devices h.unique
  refine ⟨hunique, fun d => ?_, fun push task hpush => ?_, fun push hpush => ?_,
    h.addressed.concat ?_⟩
  · rw [hrows d, h.held d, ← since_append]
  · rw [hpushes] at hpush
    exact (h.pushes push task hpush).quiet (quiet push)
  · rw [hpushes] at hpush
    obtain ⟨hposted, hanswered⟩ := h.unbegun push hpush
    rw [postedBy_concat, answeredBy_concat, hposted, hanswered, (quiet push).1, (quiet push).2]
    exact ⟨rfl, rfl⟩
  · intro push messages hnote
    have hposted := (quiet push).1
    rw [hnote] at hposted
    simp [FleetNote.posted?] at hposted

theorem PushTask.begin_logged (job : ClaimedJob) (recipient : Recipient)
    (hnone : postedBy push log = [] ∧ answeredBy push log = []) :
    (PushTask.begin job recipient).Logged start log push := by
  refine ⟨?_, fun call hcall => ?_⟩
  · rw [hnone.1, hnone.2, PushTask.begin]
    split_ifs
    · exact .skipped
    · exact .loading
  · rw [PushTask.begin] at hcall
    split_ifs at hcall <;> cases hcall

theorem PushCall.next_call? (call : PushCall) (rest : List ℕ) :
    (call.next rest).call? = some call := by
  cases rest <;> rfl

theorem PushTask.afterLoad_logged {tokens : List String}
    (hnone : postedBy push log = [] ∧ answeredBy push log = [])
    (hloaded : Loaded start log push task.recipient.user.id tokens) :
    PushTask.Logged start log push { task with stage := task.afterLoad tokens } := by
  have hskipped (hstage : task.afterLoad tokens = .skipped) :
      PushTask.Logged start log push { task with stage := task.afterLoad tokens } := by
    rw [hstage]
    refine ⟨?_, fun call hcall => by cases hcall⟩
    rw [hnone.1, hnone.2]
    exact .skipped
  by_cases htokens : tokens = []
  · exact hskipped (if_pos htokens)
  · cases hevent : task.recipient.event with
    | none => exact hskipped (by simp only [PushTask.afterLoad, hevent, ite_self])
    | some event =>
      cases hrender : PushTemplates.render task.job.eventType (some event) task.job.payload with
      | error failure =>
        exact hskipped (by simp only [PushTask.afterLoad, hevent, hrender, ite_self])
      | ok content =>
        have hstage : task.afterLoad tokens =
            PushCall.next ⟨tokens, content, pushData event⟩
              (starts maxTokensPerRequest tokens.length) := by
          simp only [PushTask.afterLoad, if_neg htokens, hevent, hrender]
        rw [hstage]
        refine ⟨?_, fun call hcall => ?_⟩
        · have hsending : PushCall.Sending ⟨tokens, content, pushData event⟩
              (starts maxTokensPerRequest tokens.length) [] [] := PushCall.sending_start htokens
          rw [hnone.1, hnone.2]
          exact hsending.next rfl
        · rw [PushCall.next_call?] at hcall
          cases hcall
          exact ⟨hevent ▸ hrender, hloaded⟩

theorem FleetLogged.registeredTo_iff (h : FleetLogged start log fleet) (user : UUID)
    (token : String) :
    RegisteredTo start log user token ↔
      ∃ d ∈ fleet.devices, d.userId = user ∧ d.expoPushToken = token := by
  constructor
  · rintro ⟨d, huser, htoken, hsince⟩
    exact ⟨d, (h.held d).mpr hsince, huser, htoken⟩
  · rintro ⟨d, hd, huser, htoken⟩
    exact ⟨d, huser, htoken, (h.held d).mp hd⟩

theorem addressed_of_silent (hnote : ∀ push messages, note ≠ .posted push messages) :
    GoesToLoaded start log note := by
  intro push messages h
  exact absurd h (hnote push messages)

theorem FleetLogged.loaded {tokens : List String} (h : FleetLogged start log fleet)
    (found : fleet.pushes[push]? = some task) (stage : task.stage = .loading)
    (all : tokens.Perm (loadPushTokens task.recipient.user.id fleet.devices)) :
    FleetLogged start (log ++ [.loaded push task.recipient.user.id tokens])
      (fleet.setPush push task (task.afterLoad tokens)) := by
  refine h.move (.loaded found stage all) found rfl (fun _ _ => ⟨rfl, rfl⟩) ?_
    (addressed_of_silent (by simp))
  have hrecord := (h.pushes push task found).record
  rw [stage] at hrecord
  have hnone : postedBy push log = [] ∧ answeredBy push log = [] := by
    generalize postedBy push log = posted, answeredBy push log = answers at hrecord
    cases hrecord
    exact ⟨rfl, rfl⟩
  refine PushTask.afterLoad_logged ?_ ⟨log, [], rfl, ?_, fun token => ?_⟩
  · rw [postedBy_concat, answeredBy_concat, hnone.1, hnone.2]
    exact ⟨rfl, rfl⟩
  · exact all.nodup_iff.mpr (loadPushTokens_nodup h.unique)
  · rw [all.mem_iff, mem_loadPushTokens, h.registeredTo_iff]

theorem FleetLogged.posted (h : FleetLogged start log fleet)
    (found : fleet.pushes[push]? = some task) (stage : task.stage = .posting call first rest) :
    FleetLogged start
      (log ++ [.posted push (pushMessages call.content call.data (call.batch first))])
      (fleet.setPush push task (.awaiting call first rest)) := by
  have hlogged := h.pushes push task found
  obtain ⟨hcontent, hloaded⟩ := hlogged.called call (by rw [stage]; rfl)
  refine h.move (.posted found stage) found rfl ?_ ⟨?_, ?_⟩ ?_
  · intro other hother
    exact ⟨if_neg (Ne.symm hother), rfl⟩
  · have hrecord := hlogged.record
    rw [stage] at hrecord
    rw [postedBy_concat, answeredBy_concat]
    simp only [FleetNote.posted?, FleetNote.answered?, if_true, Option.toList_some,
      Option.toList_none, List.append_nil]
    generalize postedBy push log = posted, answeredBy push log = answers at hrecord
    cases hrecord with
    | posting even sending => exact .awaiting even sending
  · intro call' hcall
    cases hcall
    exact ⟨hcontent, hloaded.more _⟩
  · intro push' messages hnote
    cases hnote
    refine ⟨_, _, hloaded, fun message hmessage => ?_⟩
    obtain ⟨token, htoken, rfl⟩ := List.mem_map.mp hmessage
    exact List.mem_of_mem_drop (List.mem_of_mem_take htoken)

theorem FleetLogged.answered {reply : Option ExpoResponse} {dead : List String} {stage' : PushStage}
    (h : FleetLogged start log fleet) (found : fleet.pushes[push]? = some task)
    (stage : task.stage = .awaiting call first rest)
    (hmove : FleetMove fleet next [.answered push reply dead])
    (hpushes : next.pushes = fleet.pushes.set push { task with stage := stage' })
    (hcall : stage'.call? = some call)
    (hrecord : ∀ posted answers, posted.length = answers.length →
      call.Sending (first :: rest) posted answers →
      PushRecord stage' (posted ++ [pushMessages call.content call.data (call.batch first)])
        (answers ++ [(reply, dead)])) :
    FleetLogged start (log ++ [.answered push reply dead]) next := by
  have hlogged := h.pushes push task found
  refine h.move hmove found hpushes ?_ ⟨?_, ?_⟩ (addressed_of_silent (by simp))
  · intro other hother
    exact ⟨rfl, if_neg (Ne.symm hother)⟩
  · have hbefore := hlogged.record
    rw [stage] at hbefore
    rw [postedBy_concat, answeredBy_concat]
    simp only [FleetNote.posted?, FleetNote.answered?, if_true, Option.toList_some,
      Option.toList_none, List.append_nil]
    generalize postedBy push log = posted, answeredBy push log = answers at hbefore
    cases hbefore with
    | awaiting even sending => exact hrecord _ _ even sending
  · intro call' hcall'
    rw [hcall] at hcall'
    cases hcall'
    obtain ⟨hcontent, hloaded⟩ := hlogged.called call (by rw [stage]; rfl)
    exact ⟨hcontent, hloaded.more _⟩

theorem FleetLogged.step {notes : List FleetNote} (h : FleetLogged start log fleet)
    (hmove : FleetMove fleet next notes) : FleetLogged start (log ++ notes) next := by
  cases hmove with
  | idle => rwa [List.append_nil]
  | registered hregister => exact h.route (.registered hregister) rfl fun _ => ⟨rfl, rfl⟩
  | unregistered user token => exact h.route (.unregistered user token) rfl fun _ => ⟨rfl, rfl⟩
  | begun job recipient =>
    rw [List.append_nil]
    refine ⟨h.unique, h.held, fun push task hpush => ?_, fun push hpush => ?_, h.addressed⟩
    · rw [List.getElem?_append] at hpush
      split_ifs at hpush with hlt
      · exact h.pushes push task hpush
      · rw [List.mem_singleton.mp (List.mem_of_getElem? hpush)]
        exact PushTask.begin_logged job recipient (h.unbegun push (by omega))
    · rw [List.length_append] at hpush
      exact h.unbegun push (by omega)
  | loaded found stage all => exact h.loaded found stage all
  | posted found stage => exact h.posted found stage
  | raised found stage outcome =>
    exact h.answered found stage (.raised found stage outcome) rfl rfl
      fun posted answers even sending => sending.raised even outcome
  | answered found stage outcome =>
    exact h.answered found stage (.answered found stage outcome) rfl (PushCall.next_call? _ _)
      fun posted answers even sending => sending.returned even outcome

end Steps

theorem fleet_logged {start fleet : Fleet} {log : List FleetNote}
    (run : Run fleetStep start log fleet) (hunique : UniqueDevices start.devices)
    (hnone : start.pushes = []) : FleetLogged start.devices log fleet := by
  apply run.invariant (FleetLogged start.devices)
  · refine ⟨hunique, fun d => since_nil.symm, fun push task hpush => ?_, fun _ _ => ⟨rfl, rfl⟩,
      reasoned_nil _⟩
    rw [hnone] at hpush
    cases hpush
  · intro log fleet action next notes h hstep
    exact h.step (fleetStep_move hstep)

/-- A row of `devices` is there exactly from the registration that has written it, or from the
    start, until its token is registered again, its owner unregisters it, or Expo reports it dead to
    a push. A message of a push goes only to devices that were its recipient's when the push loaded
    them, and it loads all of those, each once. The query and the write of a registration are one
    step here, and so are an answer of Expo and the DELETE that it leads to. -/
theorem device_custody {start fleet : Fleet} {log : List FleetNote}
    (run : Run fleetStep start log fleet) (hunique : UniqueDevices start.devices)
    (hnone : start.pushes = []) :
    UniqueDevices fleet.devices ∧
      (∀ d, d ∈ fleet.devices ↔
        Since (d ∈ start.devices) (fun note => note = .registered d) d.EndedBy log) ∧
      ∀ before push messages later, log = before ++ .posted push messages :: later →
        ∃ user tokens, Loaded start.devices before push user tokens ∧
          ∀ message ∈ messages, message.to_ ∈ tokens := by
  have h := fleet_logged run hunique hnone
  refine ⟨h.unique, h.held, ?_⟩
  intro before push messages later hlog
  exact h.addressed before _ later hlog push messages rfl

/-- However the steps of other pushes and of the routes come in between, a push posts, deletes and
    raises what `send_to_tokens` does with the tokens that it has loaded and the answers that it has
    had. At no moment has it posted more than one message to a device. -/
theorem push_as_written {start fleet : Fleet} {log : List FleetNote}
    (run : Run fleetStep start log fleet) (hunique : UniqueDevices start.devices)
    (hnone : start.pushes = []) {push : ℕ} {task : PushTask} {call : PushCall}
    (found : fleet.pushes[push]? = some task) (called : task.stage.call? = some call) :
    Loaded start.devices log push task.recipient.user.id call.tokens ∧
      PushTemplates.render task.job.eventType task.recipient.event task.job.payload =
        .ok call.content ∧
      (postedBy push log).flatten.map PushMessage.to_ <+: call.tokens ∧
      ∀ raised, task.stage = .ended call raised → ∀ devices,
        (call.run (repliesTo push log) devices).posted = postedBy push log ∧
          (call.run (repliesTo push log) devices).deleted = deletedBy push log ∧
          (call.run (repliesTo push log) devices).raised = raised := by
  have hlogged := (fleet_logged run hunique hnone).pushes push task found
  obtain ⟨hcontent, hloaded⟩ := hlogged.called call called
  refine ⟨hloaded, hcontent, hlogged.record.recipients called, fun raised hended devices => ?_⟩
  have hrecord := hlogged.record
  have hanswers : Answers (repliesTo push log) (answeredBy push log) := by
    intro k answer hk
    rw [repliesTo, hk]
    rfl
  rw [hended] at hrecord
  rw [deletedBy]
  generalize postedBy push log = posted, answeredBy push log = answers at hrecord hanswers
  cases hrecord with
  | ended sent => exact sent _ devices hanswers

section Handover

def galaPush : Recipient :=
  ⟨⟨2, "alice@school.example", none, "Alice", .student, none⟩,
    some ⟨20, 1, "Gala", "", 0, none, "Hall", 10, .cancelled, 0, 0⟩⟩

def deadTicket : ExpoResponse :=
  ⟨200, .ok (.object [("data", .array [.object [("status", .string "error"),
    ("details", .object [("error", .string "DeviceNotRegistered")])]])])⟩

/-- Between the load and the message Bob registers Alice's phone; Expo reports it dead. -/
def handover : List FleetAction :=
  [.register 2 "Expo[a]" .ios 100 1,
    .begin ⟨500, .eventCancelled, {}, ⟨20, .eventCancelled⟩, 1⟩ galaPush,
    .load 0 ["Expo[a]"], .register 3 "Expo[a]" .android 101 2, .post 0, .answer 0 (some deadTicket)]

def pushed (fleet : Fleet) : Option (UUID × List String) :=
  match fleet.pushes with
  | [⟨_, recipient, .ended call none⟩] => some (recipient.user.id, call.tokens)
  | _ => none

theorem pushed_some {fleet : Fleet} {user : UUID} {tokens : List String}
    (h : pushed fleet = some (user, tokens)) : ∃ (task : PushTask) (call : PushCall),
      fleet.pushes[0]? = some task ∧ task.stage = .ended call none ∧
        task.recipient.user.id = user ∧ call.tokens = tokens := by
  unfold pushed at h
  split at h
  · rename_i job recipient call hpushes
    cases h
    rw [hpushes]
    exact ⟨_, call, rfl, rfl, rfl, rfl⟩
  · cases h

theorem handover_run : ∃ fleet log, Run fleetStep {} log fleet ∧ fleet.devices = [] ∧
    deletedBy 0 log = ["Expo[a]"] ∧ pushed fleet = some (2, ["Expo[a]"]) := by
  have hrun : (execute fleetStep {} handover).map (fun r =>
      (r.1.devices, deletedBy 0 r.2, pushed r.1)) =
        some ([], ["Expo[a]"], some (2, ["Expo[a]"])) := by decide +kernel
  obtain ⟨fleet, log, hrun, hread⟩ := execute_map hrun
  obtain ⟨hdevices, hrest⟩ := Prod.mk.inj hread
  obtain ⟨hdeleted, hpushed⟩ := Prod.mk.inj hrest
  exact ⟨fleet, log, hrun, hdevices, hdeleted, hpushed⟩

theorem device_custody_handover : ∃ fleet log, Run fleetStep {} log fleet ∧
    deletedBy 0 log = ["Expo[a]"] ∧
    ∀ d, ¬ Since (d ∈ ({} : Fleet).devices) (fun note => note = .registered d) d.EndedBy log := by
  obtain ⟨fleet, log, hrun, hdevices, hdeleted, -⟩ := handover_run
  obtain ⟨-, hheld, -⟩ := device_custody hrun ⟨List.nodup_nil, List.nodup_nil⟩ rfl
  refine ⟨fleet, log, hrun, hdeleted, fun d hsince => ?_⟩
  have hd := (hheld d).mpr hsince
  rw [hdevices] at hd
  cases hd

theorem push_as_written_handover : ∃ (fleet : Fleet) (log : List FleetNote) (call : PushCall),
    Run fleetStep {} log fleet ∧ Loaded [] log 0 2 call.tokens ∧ call.tokens = ["Expo[a]"] ∧
      ∀ devices, (call.run (repliesTo 0 log) devices).deleted = ["Expo[a]"] := by
  obtain ⟨fleet, log, hrun, -, hdeleted, hpushed⟩ := handover_run
  obtain ⟨task, call, found, hended, huser, htokens⟩ := pushed_some hpushed
  obtain ⟨hloaded, -, -, hsent⟩ :=
    push_as_written hrun ⟨List.nodup_nil, List.nodup_nil⟩ rfl found (by rw [hended]; rfl)
  rw [huser] at hloaded
  refine ⟨fleet, log, call, hrun, hloaded, htokens, fun devices => ?_⟩
  rw [(hsent none hended devices).2.1, hdeleted]

end Handover
end Hefest
