import Quinn.Checks.Order
import Quinn.Comms.Boxes

/-! What of a message reaches the inboxes. -/

namespace Quinn.Comms

open Checks (mapM_eq_ok_iff exists_mapM_eq_ok exists_of_mem_left exists_of_mem_right)

/-- An issue has what it was created with, under the same names, and nothing else of a message. -/
structure Issue.Holds (issue : Issue) (args : CreateArgs) : Prop where
  title : issue.title = some args.title
  assignee : issue.assignee = args.assignee
  description : issue.description = args.description
  metadata : issue.metadata = some args.metadata
  timeSensitivity : issue.timeSensitivity = args.timeSensitivity
  sender : issue.sender = none
  threadId : issue.threadId = none

section bd

variable {σ : Type} (bd : Bd σ)

def Bd.Fresh (s : σ) (id : String) : Prop :=
  ∀ w issues, bd.list w s = .ok issues → ∀ issue ∈ issues, issue.id ≠ id

structure Bd.Adds (args : CreateArgs) (s : σ) (issue : Issue) (s' : σ) : Prop where
  holds : issue.Holds args
  fresh : bd.Fresh s issue.id
  lists : ∀ w, ∃ issues issues', bd.list w s = .ok issues ∧ bd.list w s' = .ok issues' ∧
    issues'.Perm (if args.assignee = some w then issue :: issues else issues)

/-- `bd create` stores what it is given, and `bd list` returns it. -/
def Bd.Stores : Prop :=
  ∀ args s, ∃ issue stdout s', bd.create args s = (.ok stdout, s') ∧ bd.Adds args s issue s'

end bd

/-- What the inbox has to return as it was sent. -/
structure SameMessage (sent received : WorkerMessage) : Prop where
  sender : received.sender = sent.sender
  subject : received.subject = sent.subject
  body : received.body = sent.body
  messageType : received.messageType = sent.messageType
  timeSensitivity : received.timeSensitivity = sent.timeSensitivity
  threadId : received.threadId = sent.threadId

section delivery

variable {σ : Type} (client : Client) (bd : Bd σ)

def Delivered (workerId : WorkerId) (generated : String) (m : WorkerMessage) (s : σ) : Prop :=
  ∃ returned s' id, send client bd workerId generated m s = (.ok returned, s') ∧ bd.Fresh s id ∧
    (∀ w ∈ m.recipients, ∀ now, ∃ messages received, poll client bd w now s' = .ok messages ∧
      messages.filter (·.id = id) = [received] ∧ SameMessage (addressed workerId generated m) received) ∧
    ∀ w ∉ m.recipients, ∀ now messages, poll client bd w now s' = .ok messages →
      ∀ received ∈ messages, received.id ≠ id

def Issue.Readable (issue : Issue) : Prop := ∃ type, issue.messageType = .ok type

structure Deliverable (workerId : WorkerId) (m : WorkerMessage) (s : σ) : Prop where
  client : client = .textClient
  sender : m.sender = "" ∧ workerId = ""
  threadId : m.threadId = none
  recipients : ∀ w ∈ m.recipients, m.recipients.head? = some w
  messageType : ∀ v, m.metadata.get? "message_type" = some v → typeMap v = .ok m.messageType
  others : ∀ w ∈ m.recipients, ∀ issues, bd.list w s = .ok issues →
    ∀ issue ∈ issues, issue.sender ≠ some w → issue.Readable

end delivery

theorem Dict.get?_append (d d' : Dict) (key : String) :
    (d ++ d').get? key = (d'.get? key).or (d.get? key) := by
  simp only [Dict.get?, List.reverse_append, List.find?_append]
  cases d'.reverse.find? (·.1 = key) with
  | none => rfl
  | some e => rfl

@[simp] theorem typeMap_value (type : MessageType) : typeMap (.text type.value) = .ok type := by
  cases type with
  | _ => decide

@[simp] theorem addressed_recipients (workerId : WorkerId) (generated : String) (m : WorkerMessage) :
    (addressed workerId generated m).recipients = m.recipients := rfl

theorem addressed_sender_eq_empty_iff (workerId : WorkerId) (generated : String) (m : WorkerMessage) :
    (addressed workerId generated m).sender = "" ↔ m.sender = "" ∧ workerId = "" := by
  simp only [addressed]
  split
  next h => simp [h]
  next h => simp [h]

theorem truthy_getD (s : String) : (truthy (some s)).getD "" = s := by
  by_cases hs : s = ""
  · subst hs
    rfl
  · simp [truthy, Option.filter, hs]

/-- The type as the inbox reads it: what the metadata of the message say comes first. -/
theorem messageType_eq {issue : Issue} {m : WorkerMessage} (h : issue.Holds (createArgs m)) :
    issue.messageType = ((m.metadata.get? "message_type").map typeMap).getD (.ok m.messageType) := by
  have hbase : Dict.get? [("sender", .text m.sender), ("message_type", .text m.messageType.value),
      ("recipients", .texts m.recipients)] "message_type" = some (.text m.messageType.value) := by
    rfl
  rw [Issue.messageType, h.metadata, createArgs, Option.getD_some, Dict.get?_append, hbase]
  cases m.metadata.get? "message_type" with
  | none => exact typeMap_value m.messageType
  | some v => rfl

theorem timeSensMap_createArgs (m : WorkerMessage) :
    timeSensMap ((createArgs m).timeSensitivity.getD "whenever") = m.timeSensitivity := by
  simp only [createArgs]
  cases m.timeSensitivity with
  | _ => decide

theorem parseMessage_eq_ok_iff {now : Time} {issue : Issue} {received : WorkerMessage} :
    parseMessage now issue = .ok received ↔
      ∃ type, issue.messageType = .ok type ∧ received = {
        id := issue.id, sender := issue.sender.getD "", recipients := (truthy issue.assignee).toList
        subject := issue.title.getD "", body := issue.description.getD "", messageType := type
        timeSensitivity := timeSensMap (issue.timeSensitivity.getD "whenever")
        threadId := issue.threadId, replyTo := issue.replyTo, askId := issue.askId
        okrId := issue.okrId, ephemeral := issue.ephemeral.getD false
        metadata := issue.metadata.getD [], createdAt := issue.createdAt.getD now } := by
  simp only [parseMessage]
  cases issue.messageType with
  | error e => simp [bind, Except.bind]
  | ok type => simp [bind, Except.bind, pure, Except.pure, eq_comm]

theorem parseMessage_id {now : Time} {issue : Issue} {received : WorkerMessage}
    (h : parseMessage now issue = .ok received) : received.id = issue.id := by
  obtain ⟨type, -, rfl⟩ := parseMessage_eq_ok_iff.1 h
  rfl

theorem sameMessage_iff {issue : Issue} {m received : WorkerMessage} {now : Time}
    (h : issue.Holds (createArgs m)) (hparse : parseMessage now issue = .ok received) :
    SameMessage m received ↔
      m.sender = "" ∧ m.threadId = none ∧ issue.messageType = .ok m.messageType := by
  obtain ⟨type, htype, rfl⟩ := parseMessage_eq_ok_iff.1 hparse
  constructor
  · intro hsame
    have hsender := hsame.sender
    have hthread := hsame.threadId
    have hkind : type = m.messageType := hsame.messageType
    rw [h.sender] at hsender
    rw [h.threadId] at hthread
    exact ⟨hsender.symm, hthread.symm, hkind ▸ htype⟩
  · rintro ⟨hsender, hthread, hkind⟩
    exact {
      sender := by rw [h.sender, hsender]; rfl
      subject := by rw [h.title]; rfl
      body := by rw [h.description]; exact truthy_getD m.body
      messageType := by simpa [htype] using hkind
      timeSensitivity := by rw [h.timeSensitivity]; exact timeSensMap_createArgs m
      threadId := by rw [h.threadId, hthread] }

def notFrom (w : WorkerId) (issues : List Issue) : List Issue := issues.filter (·.sender ≠ some w)

variable {σ : Type} {bd : Bd σ} {s : σ}

theorem poll_eq_ok_iff {w : WorkerId} {now : Time} {issues : List Issue} {messages : List WorkerMessage}
    (h : bd.list w s = .ok issues) :
    poll .textClient bd w now s = .ok messages ↔
      ∃ parsed, (notFrom w issues).mapM (parseMessage now) = .ok parsed ∧
        messages = sortByUrgency parsed := by
  rw [poll, h]
  simp only [Client.text, bind, Except.bind, notFrom]
  cases List.mapM (parseMessage now) (issues.filter (·.sender ≠ some w)) with
  | error e => simp
  | ok parsed => simp [pure, Except.pure, eq_comm]

theorem Bd.Adds.filter_id {args : CreateArgs} {issue : Issue} {s' : σ} (h : bd.Adds args s issue s')
    {w : WorkerId} {issues' : List Issue} (hlist : bd.list w s' = .ok issues') :
    (notFrom w issues').filter (·.id = issue.id) = if args.assignee = some w then [issue] else [] := by
  obtain ⟨issues, issues'', hbefore, hafter, hperm⟩ := h.lists w
  obtain rfl : issues'' = issues' := by simpa [hafter] using hlist
  have hold : (notFrom w issues).filter (·.id = issue.id) = [] := by
    refine List.filter_eq_nil_iff.2 fun i hi => ?_
    simpa using h.fresh w issues hbefore i (List.mem_of_mem_filter hi)
  have hfilter := (hperm.filter (·.sender ≠ some w)).filter (·.id = issue.id)
  split at hfilter
  next hassigned =>
    rw [List.filter_cons_of_pos (by simp [h.holds.sender]), List.filter_cons_of_pos (by simp)] at hfilter
    change List.Perm _ (issue :: (notFrom w issues).filter (·.id = issue.id)) at hfilter
    rw [hold] at hfilter
    rw [if_pos hassigned]
    exact List.perm_singleton.1 hfilter
  next hother =>
    change List.Perm _ ((notFrom w issues).filter (·.id = issue.id)) at hfilter
    rw [hold] at hfilter
    rw [if_neg hother]
    exact hfilter.eq_nil

theorem sortByUrgency_perm (messages : List WorkerMessage) : (sortByUrgency messages).Perm messages :=
  List.perm_insertionSort _ messages

theorem poll_filter_id {w : WorkerId} {now : Time} {issues : List Issue} {messages : List WorkerMessage}
    (hlist : bd.list w s = .ok issues) (hpoll : poll .textClient bd w now s = .ok messages) (id : String) :
    ∃ parsed, (messages.filter (·.id = id)).Perm parsed ∧
      List.Forall₂ (fun issue m => parseMessage now issue = .ok m)
        ((notFrom w issues).filter (·.id = id)) parsed := by
  obtain ⟨parsed, hparsed, rfl⟩ := (poll_eq_ok_iff hlist).1 hpoll
  refine ⟨parsed.filter (·.id = id), (sortByUrgency_perm parsed).filter _, ?_⟩
  refine List.rel_filter ?_ (mapM_eq_ok_iff.1 hparsed)
  intro issue m hm
  simp [parseMessage_id hm]

theorem exists_poll_iff {w : WorkerId} {now : Time} {issues : List Issue} (h : bd.list w s = .ok issues) :
    (∃ messages, poll .textClient bd w now s = .ok messages) ↔
      ∀ issue ∈ issues, issue.sender ≠ some w → issue.Readable := by
  constructor
  · rintro ⟨messages, hpoll⟩ issue hissue hsender
    obtain ⟨parsed, hparsed, -⟩ := (poll_eq_ok_iff h).1 hpoll
    have hmem : issue ∈ notFrom w issues := List.mem_filter.2 ⟨hissue, by simpa using hsender⟩
    obtain ⟨m, -, hm⟩ := exists_of_mem_left (mapM_eq_ok_iff.1 hparsed) hmem
    obtain ⟨type, htype, -⟩ := parseMessage_eq_ok_iff.1 hm
    exact ⟨type, htype⟩
  · intro hreadable
    have hparse : ∀ issue ∈ notFrom w issues, ∃ m, parseMessage now issue = .ok m := by
      intro issue hissue
      obtain ⟨hmem, hsender⟩ := List.mem_filter.1 hissue
      obtain ⟨type, htype⟩ := hreadable issue hmem (by simpa using hsender)
      exact ⟨_, parseMessage_eq_ok_iff.2 ⟨type, htype, rfl⟩⟩
    obtain ⟨parsed, hparsed⟩ := exists_mapM_eq_ok hparse
    exact ⟨_, (poll_eq_ok_iff h).2 ⟨parsed, hparsed, rfl⟩⟩

theorem send_bdClient {workerId : WorkerId} {generated : String} {m : WorkerMessage} {s' : σ} {stdout : String}
    (h : bd.create (createArgs (addressed workerId generated m)) s = (.ok stdout, s')) :
    send .bdClient bd workerId generated m s = (.error .attributeError, s') := by
  rw [send, storeMessage, h]
  rfl

theorem send_textClient {workerId : WorkerId} {generated : String} {m : WorkerMessage} {s' : σ} {stdout : String}
    (h : bd.create (createArgs (addressed workerId generated m)) s = (.ok stdout, s')) :
    ∃ returned, send .textClient bd workerId generated m s = (.ok returned, s') := by
  rw [send, storeMessage, h]
  exact ⟨_, rfl⟩

theorem Bd.Adds.poll_iff {m : WorkerMessage} {issue : Issue} {s' : σ}
    (h : bd.Adds (createArgs m) s issue s') (w : WorkerId) (now : Time) :
    (∃ messages received, poll .textClient bd w now s' = .ok messages ∧
        messages.filter (·.id = issue.id) = [received] ∧ SameMessage m received) ↔
      m.recipients.head? = some w ∧ m.sender = "" ∧ m.threadId = none ∧
        issue.messageType = .ok m.messageType ∧
        ∀ issues, bd.list w s = .ok issues → ∀ i ∈ issues, i.sender ≠ some w → i.Readable := by
  obtain ⟨issues, issues', hbefore, hafter, hperm⟩ := h.lists w
  constructor
  · rintro ⟨messages, received, hpoll, hfilter, hsame⟩
    obtain ⟨parsed, hparsed, hall⟩ := poll_filter_id hafter hpoll issue.id
    rw [hfilter] at hparsed
    obtain rfl := List.perm_singleton.1 hparsed.symm
    rw [h.filter_id hafter] at hall
    split at hall
    next hassigned =>
      cases hall with
      | cons hparse =>
        obtain ⟨hsender, hthread, htype⟩ := (sameMessage_iff h.holds hparse).1 hsame
        refine ⟨hassigned, hsender, hthread, htype, fun issues'' hlist i hi => ?_⟩
        obtain rfl : issues = issues'' := by simpa [hbefore] using hlist
        rw [if_pos hassigned] at hperm
        exact (exists_poll_iff hafter).1 ⟨messages, hpoll⟩ i (hperm.mem_iff.2 (.tail _ hi))
    next => cases hall
  · rintro ⟨hassigned, hsender, hthread, htype, hothers⟩
    rw [if_pos (show (createArgs m).assignee = some w from hassigned)] at hperm
    have hreadable : ∀ i ∈ issues', i.sender ≠ some w → i.Readable := by
      intro i hi
      cases hperm.mem_iff.1 hi with
      | head => exact fun _ => ⟨_, htype⟩
      | tail _ hi => exact hothers issues hbefore i hi
    obtain ⟨messages, hpoll⟩ : ∃ messages, poll .textClient bd w now s' = .ok messages :=
      (exists_poll_iff hafter).2 hreadable
    obtain ⟨parsed, hparsed, hall⟩ := poll_filter_id hafter hpoll issue.id
    rw [h.filter_id hafter, if_pos (show (createArgs m).assignee = some w from hassigned)] at hall
    cases hall with
    | cons hparse hnil =>
      cases hnil
      exact ⟨messages, _, hpoll, List.perm_singleton.1 hparsed,
        (sameMessage_iff h.holds hparse).2 ⟨hsender, hthread, htype⟩⟩

theorem Bd.Adds.id_ne_of_poll {m : WorkerMessage} {issue : Issue} {s' : σ}
    (h : bd.Adds (createArgs m) s issue s') {w : WorkerId} (hw : m.recipients.head? ≠ some w) {now : Time}
    {messages : List WorkerMessage} (hpoll : poll .textClient bd w now s' = .ok messages) :
    ∀ received ∈ messages, received.id ≠ issue.id := by
  obtain ⟨issues, issues', -, hafter, -⟩ := h.lists w
  obtain ⟨parsed, hparsed, hall⟩ := poll_filter_id hafter hpoll issue.id
  rw [h.filter_id hafter, if_neg (show (createArgs m).assignee ≠ some w from hw)] at hall
  cases hall
  intro received hreceived hid
  exact List.filter_eq_nil_iff.1 hparsed.eq_nil received hreceived (by simpa using hid)

theorem Bd.Adds.eq_id_of_poll {m : WorkerMessage} {issue : Issue} {s' : σ}
    (h : bd.Adds (createArgs m) s issue s') {id : String} (hfresh : bd.Fresh s id) {w : WorkerId}
    {now : Time} {messages : List WorkerMessage} (hpoll : poll .textClient bd w now s' = .ok messages)
    {received : WorkerMessage} (hmem : received ∈ messages) (hid : received.id = id) : id = issue.id := by
  obtain ⟨issues, issues', hbefore, hafter, hperm⟩ := h.lists w
  obtain ⟨parsed, hparsed, hall⟩ := poll_filter_id hafter hpoll id
  have hin : received ∈ parsed := hparsed.mem_iff.1 (List.mem_filter.2 ⟨hmem, by simpa using hid⟩)
  obtain ⟨i, hi, -⟩ := exists_of_mem_right hall hin
  obtain ⟨hi, hiid⟩ := List.mem_filter.1 hi
  have hiid : i.id = id := by simpa using hiid
  have hi : i ∈ issues' := List.mem_of_mem_filter hi
  rw [hperm.mem_iff] at hi
  split at hi
  next =>
    cases hi with
    | head => exact hiid.symm
    | tail _ hi => exact absurd hiid (hfresh w issues hbefore i hi)
  next => exact absurd hiid (hfresh w issues hbefore i hi)

/-- A message reaches its recipients as it was sent exactly when it is deliverable. -/
theorem delivered_iff {client : Client} (hbd : bd.Stores) (workerId : WorkerId) (generated : String)
    (m : WorkerMessage) (hrecipients : m.recipients ≠ []) (s : σ) :
    Delivered client bd workerId generated m s ↔ Deliverable client bd workerId m s := by
  obtain ⟨issue, stdout, s', hcreate, hadds⟩ := hbd (createArgs (addressed workerId generated m)) s
  have htype := messageType_eq hadds.holds
  constructor
  · rintro ⟨returned, s'', id, hsend, hfresh, hpolled, -⟩
    cases client with
    | bdClient =>
      rw [send_bdClient hcreate] at hsend
      cases hsend
    | textClient =>
      obtain ⟨returned', hreturned⟩ := send_textClient hcreate
      rw [hreturned] at hsend
      cases hsend
      have hone : ∀ w ∈ m.recipients, m.recipients.head? = some w ∧
          (addressed workerId generated m).sender = "" ∧ m.threadId = none ∧
          issue.messageType = .ok m.messageType ∧
          ∀ issues, bd.list w s = .ok issues → ∀ i ∈ issues, i.sender ≠ some w → i.Readable := by
        intro w hw
        obtain ⟨messages, received, hpoll, hfilter, hsame⟩ := hpolled w hw 0
        have hmem : received ∈ messages.filter (·.id = id) := by rw [hfilter]; exact .head _
        obtain ⟨hmem, hid⟩ := List.mem_filter.1 hmem
        obtain rfl := hadds.eq_id_of_poll hfresh hpoll hmem (by simpa using hid)
        exact (hadds.poll_iff w 0).1 ⟨messages, received, hpoll, hfilter, hsame⟩
      obtain ⟨w, hw⟩ := List.exists_mem_of_ne_nil _ hrecipients
      obtain ⟨-, hsender, hthread, hkind, -⟩ := hone w hw
      exact {
        client := rfl
        sender := (addressed_sender_eq_empty_iff workerId generated m).1 hsender
        threadId := hthread
        recipients := fun w hw => (hone w hw).1
        messageType := fun v hv => by
          rw [htype] at hkind
          simpa [addressed, hv] using hkind
        others := fun w hw => (hone w hw).2.2.2.2 }
  · intro h
    obtain rfl := h.client
    obtain ⟨returned, hsend⟩ := send_textClient hcreate
    have hkind : issue.messageType = .ok (addressed workerId generated m).messageType := by
      rw [htype]
      cases hv : (addressed workerId generated m).metadata.get? "message_type" with
      | none => rfl
      | some v => exact h.messageType v hv
    refine ⟨returned, s', issue.id, hsend, hadds.fresh, fun w hw now => ?_, fun w hw now messages hpoll => ?_⟩
    · exact (hadds.poll_iff w now).2 ⟨h.recipients w hw,
        (addressed_sender_eq_empty_iff workerId generated m).2 h.sender, h.threadId, hkind, h.others w hw⟩
    · exact hadds.id_ne_of_poll (fun hhead => hw (List.mem_of_mem_head? hhead)) hpoll

def listedIssue (args : CreateArgs) (n : Nat) : Issue where
  id := "bd-" ++ toString n
  title := some args.title
  assignee := args.assignee
  description := args.description
  metadata := some args.metadata
  timeSensitivity := args.timeSensitivity
  replyTo := args.replyTo
  ephemeral := some args.ephemeral
  createdAt := some n

def listed (s : List CreateArgs) : List Issue := s.zipIdx.map fun p => listedIssue p.1 p.2

def listBd : Bd (List CreateArgs) where
  create args s := (.ok ("Created issue: bd-" ++ toString s.length), s ++ [args])
  list w s := .ok ((listed s).filter (·.assignee = some w))

theorem listed_append (s : List CreateArgs) (args : CreateArgs) :
    listed (s ++ [args]) = listed s ++ [listedIssue args s.length] := by
  simp [listed, List.zipIdx_append]

theorem listBd_fresh (s : List CreateArgs) : listBd.Fresh s ("bd-" ++ toString s.length) := by
  intro w issues hlist issue hissue hid
  obtain rfl : (listed s).filter (·.assignee = some w) = issues := by simpa [listBd] using hlist
  obtain ⟨⟨args, n⟩, hmem, rfl⟩ := List.mem_map.1 (List.mem_of_mem_filter hissue)
  have hn : toString n = toString s.length := by simpa [listedIssue] using hid
  have hlt : n < s.length := by simpa using List.snd_lt_of_mem_zipIdx hmem
  exact absurd (Text.toString_injective hn) (Nat.ne_of_lt hlt)

theorem listBd_stores : listBd.Stores := by
  intro args s
  refine ⟨listedIssue args s.length, _, s ++ [args], rfl, ⟨rfl, rfl, rfl, rfl, rfl, rfl, rfl⟩, listBd_fresh s, ?_⟩
  intro w
  refine ⟨_, _, rfl, rfl, ?_⟩
  rw [listed_append, List.filter_append]
  split
  next hw =>
    rw [List.filter_cons_of_pos (by simpa [listedIssue] using hw)]
    exact List.perm_append_singleton _ _
  next hw =>
    rw [List.filter_cons_of_neg (by simpa [listedIssue] using hw)]
    simp

def anonymous : WorkerMessage where
  id := ""
  sender := ""
  recipients := ["bob"]
  subject := "standup"
  body := "at ten"
  messageType := .request
  timeSensitivity := .hours
  createdAt := 0

theorem anonymous_delivered : Delivered .textClient listBd "" "msg-0a1b2c3d" anonymous [] :=
  (delivered_iff listBd_stores "" "msg-0a1b2c3d" anonymous (by decide) []).2 {
    client := rfl
    sender := ⟨rfl, rfl⟩
    threadId := rfl
    recipients := by decide
    messageType := by decide
    others := fun _ _ issues hlist issue hissue => by
      obtain rfl : [] = issues := by simpa [listBd, listed] using hlist
      cases hissue }

def fromAlice : WorkerMessage where
  id := "msg-1"
  sender := "alice"
  recipients := ["bob", "carol"]
  subject := "standup"
  body := "at ten"
  threadId := some "thread-1"
  createdAt := 0

/-- What `bd` keeps of it. -/
def kept : List CreateArgs := [createArgs fromAlice]

theorem poll_bob : ∃ received, poll .textClient listBd "bob" 0 kept = .ok [received] ∧
    received.sender = "" ∧ received.threadId = none :=
  ⟨_, rfl, rfl, rfl⟩

theorem poll_bdClient (w : WorkerId) (now : Time) (s : List CreateArgs) :
    poll .bdClient listBd w now s = .error .attributeError := rfl

/-- It is stored, bob polls it without its sender and its thread, and carol does not poll it; with
`BdClient`, sending and polling raise. -/
theorem fromAlice_not_delivered :
    send .textClient listBd "alice" "" fromAlice [] = (.ok "bd-0", kept) ∧
    (∃ received, poll .textClient listBd "bob" 0 kept = .ok [received] ∧
      received.sender = "" ∧ received.threadId = none) ∧
    poll .textClient listBd "carol" 0 kept = .ok [] ∧
    send .bdClient listBd "alice" "" fromAlice [] = (.error .attributeError, kept) ∧
    (∀ w now s, poll .bdClient listBd w now s = .error .attributeError) ∧
    ∀ client, ¬ Delivered client listBd "alice" "" fromAlice [] := by
  have hsend : send .textClient listBd "alice" "" fromAlice [] = (.ok "bd-0", kept) := by
    refine Prod.ext ?_ rfl
    show Except.ok (createdId "Created issue: bd-0" "msg-1") = Except.ok "bd-0"
    decide +kernel
  refine ⟨hsend, poll_bob, rfl, rfl, poll_bdClient, ?_⟩
  rintro client ⟨returned, s', id, hreturned, -, hpolled, -⟩
  cases client with
  | bdClient => cases hreturned
  | textClient =>
    rw [hsend] at hreturned
    cases hreturned
    obtain ⟨messages, received, hpoll, hfilter, hsame⟩ := hpolled "bob" (by decide) 0
    obtain ⟨bobs, hbobs, hsender, -⟩ := poll_bob
    rw [hbobs] at hpoll
    cases hpoll
    have hmem : received ∈ [bobs].filter (·.id = id) := by rw [hfilter]; exact .head _
    obtain rfl := List.mem_singleton.1 (List.mem_of_mem_filter hmem)
    have halice : received.sender = "alice" := hsame.sender
    rw [hsender] at halice
    exact absurd halice (by decide)

end Quinn.Comms
