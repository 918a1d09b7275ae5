import Mathlib.Data.Char
import Mathlib.Data.List.Forall2
import Mathlib.Data.List.Lex
import Cyanide.Lib.PosixPath
import Cyanide.Lib.PyText
import Cyanide.Lib.Transition
import Cyanide.Output.Telegram

/-!
# The report command of the Discord plugin

`_report_poll_loop` reads the last five messages of a channel, newest first, and answers the first `/report` whose id is
above `_last_message_id`, as texts are compared.  For a channel whose ids increase in this order, the loop does what a
desk does that looks at the messages since its last visit (`ReportDesk`): of the last five of them it answers the newest
`/report`, and it forgets the others (`answered_eq`).
-/

namespace Cyanide

open PosixPath PyText Transition

structure DiscordMessage where
  id : Str
  content : Str
  deriving DecidableEq

inductive DiscordRequest where
  /-- The multipart upload, with a field, a name and the data for each file. -/
  | uploadFiles (content : Str) (files : List (Str × Str × List UInt8))
  | message (content : Str)
  deriving DecidableEq

structure DiscordPlugin where
  botToken : Str
  reportChannelId : Str
  logDir : Str
  lastMessageId : Str
  /-- The messages that were answered, with the requests made for each. -/
  answers : List (Str × List DiscordRequest)

namespace DiscordPlugin

variable (U : Unicode) (s : DiscordPlugin)

def init (botToken reportChannelId logDir : Str) : DiscordPlugin := ⟨botToken, reportChannelId, logDir, [], []⟩

/-- `start` makes the thread of the poll loop. -/
def listens : Bool := !s.botToken.isEmpty && !s.reportChannelId.isEmpty

def reports : List Str :=
  let dir := join s.logDir "reports".toList
  [join dir "cyanide_iocs.stix.json".toList, join dir "cyanide_iocs.misp.json".toList]

/-- `_send_report_files`; every exception is caught inside of it. -/
def sendReportFiles (disk : Str → DiskFile) : List DiscordRequest :=
  let files := s.reports.filterMap fun path =>
    match disk path with
    | .bytes data => some (basename path, data)
    | _ => none
  if files = [] then [.message TelegramPlugin.noReportsText]
  else [.uploadFiles "📄 **Cyanide IOC Reports**".toList
    (files.zipIdx.map fun f => ("files[".toList ++ natText f.2 ++ "]".toList, f.1))]

def isReport (m : DiscordMessage) : Bool := U.lower (strip m.content) == "/report".toList

/-- A round of the poll loop with the messages of the answer, if there is a usable one. -/
def poll (disk : Str → DiskFile) : Option (List DiscordMessage) → DiscordPlugin
  | none => s
  | some messages =>
    let found := messages.find? fun m => !decide (m.id ≤ s.lastMessageId) && isReport U m
    let last := (found.map DiscordMessage.id).getD s.lastMessageId
    { s with
      lastMessageId := match messages with
        | [] => last
        | newest :: _ => if last < newest.id then newest.id else last
      answers := s.answers ++ (found.map fun m => (m.id, s.sendReportFiles disk)).toList }

end DiscordPlugin

/-- The plugin and the channel, whose messages have increasing ids. -/
structure DiscordBot where
  plugin : DiscordPlugin
  log : List DiscordMessage
  increasing : log.Pairwise (·.id < ·.id)
  nonempty : ∀ m ∈ log, m.id ≠ []

inductive DiscordEvent where
  | post (m : DiscordMessage)
  /-- A round of the poll loop that gets an answer or does not. -/
  | poll (answered : Bool) (disk : Str → DiskFile)

namespace DiscordBot

variable (U : Unicode) (s : DiscordBot)

def init (botToken reportChannelId logDir : Str) : DiscordBot :=
  ⟨DiscordPlugin.init botToken reportChannelId logDir, [], List.Pairwise.nil, by simp⟩

/-- The service gives no other ids. -/
def Accepts (m : DiscordMessage) : Prop := m.id ≠ [] ∧ ∀ m' ∈ s.log, m'.id < m.id

instance (m : DiscordMessage) : Decidable (s.Accepts m) :=
  @instDecidableAnd _ _ inferInstance (List.decidableBAll (fun m' => m'.id < m.id) s.log)

def post (m : DiscordMessage) (h : s.Accepts m) : DiscordBot where
  plugin := s.plugin
  log := s.log ++ [m]
  increasing := by
    rw [List.pairwise_append]
    exact ⟨s.increasing, List.pairwise_singleton _ m, fun m' hm' x hx => List.mem_singleton.1 hx ▸ h.2 m' hm'⟩
  nonempty := by
    intro m' hm'
    rcases List.mem_append.1 hm' with hm' | hm'
    · exact s.nonempty m' hm'
    · exact List.mem_singleton.1 hm' ▸ h.1

/-- `GET /channels/{id}/messages?limit=5`. -/
def recent : List DiscordMessage := s.log.reverse.take 5

def step : DiscordEvent → DiscordBot
  | .post m => if h : s.Accepts m then s.post m h else s
  | .poll answered disk =>
    if s.plugin.listens then { s with plugin := s.plugin.poll U disk (if answered then some s.recent else none) }
    else s

def answered : List Str := s.plugin.answers.map Prod.fst

end DiscordBot

/-! ### What the loop is for -/

/-- The messages since the last visit, the id of the newest message, and the messages that were answered. -/
structure ReportDesk where
  listens : Bool
  newest : Str
  waiting : List DiscordMessage
  answered : List Str

namespace ReportDesk

def init (listens : Bool) : ReportDesk := ⟨listens, [], [], []⟩

/-- Of the last five messages the newest command is answered. -/
def visit (U : Unicode) (t : ReportDesk) : ReportDesk :=
  { t with
    waiting := []
    answered := t.answered ++
      (((t.waiting.reverse.take 5).find? (DiscordPlugin.isReport U)).map DiscordMessage.id).toList }

def step (U : Unicode) (t : ReportDesk) : DiscordEvent → ReportDesk
  | .post m => if t.newest < m.id then { t with newest := m.id, waiting := t.waiting ++ [m] } else t
  | .poll answered _ => if t.listens && answered then t.visit U else t

/-- What was answered is older than what waits. -/
structure Ordered (t : ReportDesk) : Prop where
  answered : t.answered.Pairwise (· < ·)
  waiting : (t.waiting.map DiscordMessage.id).Pairwise (· < ·)
  later : ∀ a ∈ t.answered, ∀ m ∈ t.waiting, a < m.id
  newest : ∀ a ∈ t.answered ++ t.waiting.map DiscordMessage.id, a ≤ t.newest

theorem ordered_step (U : Unicode) {t : ReportDesk} (h : Ordered t) (e : DiscordEvent) : Ordered (t.step U e) := by
  cases e with
  | post m =>
    unfold step
    dsimp only
    split
    · rename_i hm
      exact {
        answered := h.answered
        waiting := by
          rw [List.map_append, List.pairwise_append]
          refine ⟨h.waiting, by simp, fun a ha b hb => ?_⟩
          rw [List.map_singleton, List.mem_singleton] at hb
          rw [hb]
          exact (h.newest a (List.mem_append_right _ ha)).trans_lt hm
        later := by
          intro a ha m' hm'
          rcases List.mem_append.1 hm' with hm' | hm'
          · exact h.later a ha m' hm'
          · rw [List.mem_singleton.1 hm']
            exact (h.newest a (List.mem_append_left _ ha)).trans_lt hm
        newest := by
          intro a ha
          rw [List.map_append, ← List.append_assoc] at ha
          rcases List.mem_append.1 ha with ha | ha
          · exact (h.newest a ha).trans hm.le
          · rw [List.map_singleton, List.mem_singleton] at ha
            exact ha.le }
    · exact h
  | poll answered disk =>
    unfold step
    dsimp only
    split
    · unfold visit
      cases hf : (t.waiting.reverse.take 5).find? (DiscordPlugin.isReport U) with
      | none =>
        exact ⟨by simpa using h.answered, List.Pairwise.nil, by simp, fun a ha =>
          h.newest a (List.mem_append_left _ (by simpa using ha))⟩
      | some m =>
        have hm : m ∈ t.waiting := by
          have hmem := List.mem_of_find?_eq_some hf
          exact List.mem_reverse.1 (List.mem_of_mem_take hmem)
        have hlast : ∀ a ∈ t.answered ++ [m.id], a ≤ t.newest := by
          intro a ha
          rcases List.mem_append.1 ha with ha | ha
          · exact h.newest a (List.mem_append_left _ ha)
          · rw [List.mem_singleton.1 ha]
            exact h.newest _ (List.mem_append_right _ (List.mem_map_of_mem hm))
        refine ⟨?_, List.Pairwise.nil, by simp, fun a ha => hlast a (by simpa using ha)⟩
        show (t.answered ++ [m.id]).Pairwise (· < ·)
        rw [List.pairwise_append]
        refine ⟨h.answered, by simp, fun a ha b hb => ?_⟩
        rw [List.mem_singleton.1 hb]
        exact h.later a ha m hm
    · exact h

end ReportDesk

namespace DiscordBot

variable {U : Unicode} {s : DiscordBot} {t : ReportDesk}

/-- The bot and the desk have looked at the same messages. -/
structure Visited (s : DiscordBot) (t : ReportDesk) : Prop where
  listens : s.plugin.listens = t.listens
  answered : s.answered = t.answered
  newest : t.newest = (s.log.getLast?.map DiscordMessage.id).getD []
  seen : ∃ seen, s.log = seen ++ t.waiting ∧
    s.plugin.lastMessageId = (seen.getLast?.map DiscordMessage.id).getD []

theorem le_last {l : List DiscordMessage} (h : l.Pairwise (·.id < ·.id)) {m : DiscordMessage} (hm : m ∈ l) :
    m.id ≤ (l.getLast?.map DiscordMessage.id).getD [] := by
  obtain ⟨l', x, rfl⟩ := (List.eq_nil_or_concat l).resolve_left (List.ne_nil_of_mem hm)
  rw [List.concat_eq_append] at h hm ⊢
  rw [List.getLast?_concat]
  rcases List.mem_append.1 hm with hm | hm
  · exact ((List.pairwise_append.1 h).2.2 m hm x (by simp)).le
  · rw [List.mem_singleton.1 hm]
    exact le_rfl

theorem accepts_iff {m : DiscordMessage} :
    s.Accepts m ↔ (s.log.getLast?.map DiscordMessage.id).getD [] < m.id := by
  unfold Accepts
  constructor
  · rintro ⟨hne, hall⟩
    cases hlast : s.log.getLast? with
    | none =>
      obtain ⟨c, cs, hc⟩ := List.exists_cons_of_ne_nil hne
      rw [hc]
      exact List.nil_lt_cons c cs
    | some x => exact hall x (List.mem_of_getLast? hlast)
  · intro h
    refine ⟨?_, fun m' hm' => (le_last s.increasing hm').trans_lt h⟩
    intro hnil
    rw [hnil] at h
    exact List.not_lt_nil _ h

private theorem find_congr {p q : DiscordMessage → Bool} {l : List DiscordMessage} (h : ∀ m ∈ l, p m = q m) :
    l.find? p = l.find? q := by
  induction l with
  | nil => rfl
  | cons m l ih =>
    rw [List.find?_cons, List.find?_cons, h m List.mem_cons_self, ih fun m' hm' => h m' (List.mem_cons_of_mem _ hm')]

/-- Of the five messages that the service sends, those seen before are not looked at. -/
theorem find_recent {seen waiting : List DiscordMessage} (hlog : s.log = seen ++ waiting) {last : Str}
    (hlast : last = (seen.getLast?.map DiscordMessage.id).getD []) :
    s.recent.find? (fun m => !decide (m.id ≤ last) && DiscordPlugin.isReport U m) =
      (waiting.reverse.take 5).find? (DiscordPlugin.isReport U) := by
  have hinc := s.increasing
  rw [hlog, List.pairwise_append] at hinc
  have hold : ∀ m ∈ seen, m.id ≤ last := fun m hm => hlast ▸ le_last hinc.1 hm
  have hnew : ∀ m ∈ waiting, ¬m.id ≤ last := by
    intro m hm
    rw [not_le, hlast]
    cases hx : seen.getLast? with
    | none =>
      obtain ⟨c, cs, hc⟩ := List.exists_cons_of_ne_nil (s.nonempty m (by rw [hlog]; exact List.mem_append_right _ hm))
      rw [hc]
      exact List.nil_lt_cons c cs
    | some x => exact hinc.2.2 x (List.mem_of_getLast? hx) m hm
  rw [recent, hlog, List.reverse_append, List.take_append, List.find?_append]
  have hseen : (seen.reverse.take (5 - waiting.reverse.length)).find?
      (fun m => !decide (m.id ≤ last) && DiscordPlugin.isReport U m) = none := by
    rw [List.find?_eq_none]
    intro m hm
    simp [hold m (List.mem_reverse.1 (List.mem_of_mem_take hm))]
  rw [hseen, Option.or_none]
  refine find_congr fun m hm => ?_
  simp [hnew m (List.mem_reverse.1 (List.mem_of_mem_take hm))]

/-- After a round with an answer the newest message counts as seen. -/
theorem lastMessageId_poll {seen waiting : List DiscordMessage} (hlog : s.log = seen ++ waiting)
    (hlast : s.plugin.lastMessageId = (seen.getLast?.map DiscordMessage.id).getD []) (disk : Str → DiskFile) :
    (s.plugin.poll U disk (some s.recent)).lastMessageId = (s.log.getLast?.map DiscordMessage.id).getD [] := by
  unfold DiscordPlugin.poll
  dsimp only
  cases hx : s.log.getLast? with
  | none =>
    have hnil := List.getLast?_eq_none_iff.1 hx
    rw [hnil] at hlog
    obtain ⟨rfl, rfl⟩ := List.append_eq_nil_iff.1 hlog.symm
    simp [recent, hnil, hlast]
  | some x =>
    obtain ⟨l, hl⟩ := List.getLast?_eq_some_iff.1 hx
    have hhead : s.recent = x :: (l.reverse.take 4) := by
      rw [recent, hl, List.reverse_append]
      rfl
    have hle : ∀ m ∈ s.log, m.id ≤ x.id := fun m hm => by
      have := le_last s.increasing hm
      rwa [hx] at this
    have hprev : s.plugin.lastMessageId ≤ x.id := by
      rw [hlast]
      cases hy : seen.getLast? with
      | none => exact not_lt.1 (List.not_lt_nil x.id)
      | some y => exact hle y (by rw [hlog]; exact List.mem_append_left _ (List.mem_of_getLast? hy))
    have hfound : ((s.recent.find? fun m => !decide (m.id ≤ s.plugin.lastMessageId) && DiscordPlugin.isReport U m).map
        DiscordMessage.id).getD s.plugin.lastMessageId ≤ x.id := by
      cases hf : s.recent.find? fun m => !decide (m.id ≤ s.plugin.lastMessageId) && DiscordPlugin.isReport U m with
      | none => exact hprev
      | some m => exact hle m (List.mem_reverse.1 (List.mem_of_mem_take (List.mem_of_find?_eq_some hf)))
    rw [hhead] at hfound ⊢
    simp only [Option.map_some, Option.getD_some]
    split
    · rfl
    · rename_i hno
      exact le_antisymm hfound (not_lt.1 hno)

theorem visited_step (h : Visited s t) (e : DiscordEvent) : Visited (s.step U e) (t.step U e) := by
  obtain ⟨hlistens, hanswered, hnewest, seen, hlog, hlast⟩ := h
  cases e with
  | post m =>
    unfold step ReportDesk.step
    dsimp only
    rw [hnewest]
    by_cases hm : s.Accepts m
    · rw [dif_pos hm, if_pos (accepts_iff.1 hm)]
      refine ⟨hlistens, hanswered, by simp [post], seen, ?_, hlast⟩
      show s.log ++ [m] = seen ++ (t.waiting ++ [m])
      rw [hlog, List.append_assoc]
    · rw [dif_neg hm, if_neg (mt accepts_iff.2 hm)]
      exact ⟨hlistens, hanswered, hnewest, seen, hlog, hlast⟩
  | poll answered disk =>
    unfold step ReportDesk.step
    dsimp only
    rw [hlistens]
    by_cases hl : t.listens = true
    · rw [if_pos hl]
      cases answered with
      | false =>
        simp only [hl, Bool.and_false, Bool.false_eq_true, if_false]
        exact ⟨hlistens, hanswered, hnewest, seen, hlog, hlast⟩
      | true =>
        simp only [hl, Bool.and_true, if_true]
        refine ⟨hlistens, ?_, hnewest, s.log, by rw [ReportDesk.visit, List.append_nil], ?_⟩
        · show (s.plugin.answers ++ _).map Prod.fst = _
          rw [List.map_append, find_recent hlog hlast, ReportDesk.visit, ← hanswered]
          cases (t.waiting.reverse.take 5).find? (DiscordPlugin.isReport U) <;> rfl
        · exact lastMessageId_poll hlog hlast disk
    · rw [if_neg hl]
      simp only [hl, Bool.false_and, if_false, Bool.false_eq_true]
      exact ⟨hlistens, hanswered, hnewest, seen, hlog, hlast⟩

/-- Over every run of the channel and of the loop the messages that are answered are those of the desk, each answered
once and before any newer one. -/
theorem answered_eq (U : Unicode) (botToken reportChannelId logDir : Str) (events : List DiscordEvent) :
    let start := init botToken reportChannelId logDir
    (run (step U) start events).answered =
        (run (ReportDesk.step U) (ReportDesk.init start.plugin.listens) events).answered ∧
      (run (step U) start events).answered.Pairwise (· < ·) := by
  intro start
  have hstart : Visited start (ReportDesk.init start.plugin.listens) :=
    ⟨rfl, rfl, rfl, [], rfl, rfl⟩
  have hstep : ∀ (s : DiscordBot) (t : ReportDesk) (e e' : DiscordEvent), Visited s t → e = e' → True →
      () = () ∧ Visited (step U s e) (ReportDesk.step U t e') := by
    rintro s t e - h rfl -
    exact ⟨rfl, visited_step h e⟩
  have hvisited := (simulation hstep hstart (List.forall₂_refl events) (meets_of_forall fun _ _ _ => trivial)).2
  have hordered : ReportDesk.Ordered (run (ReportDesk.step U) (ReportDesk.init start.plugin.listens) events) :=
    invariant_of_steps (I := ReportDesk.Ordered) (G := fun _ _ => True)
      (fun t e h _ => ReportDesk.ordered_step U h e) ⟨List.Pairwise.nil, List.Pairwise.nil, by simp [ReportDesk.init],
        by simp [ReportDesk.init]⟩ (meets_of_forall fun _ _ _ => trivial)
  exact ⟨hvisited.answered, hvisited.answered ▸ hordered.answered⟩

end DiscordBot

end Cyanide
