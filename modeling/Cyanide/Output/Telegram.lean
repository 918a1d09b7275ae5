import Cyanide.Lib.Feed
import Cyanide.Lib.PosixPath
import Cyanide.Lib.PyText
import Cyanide.Lib.Transition

/-!
# The report command of the Telegram plugin

`_update_poll_loop` asks the Bot API for the updates from `_update_offset` on and answers a `/report` from the configured
chat with the report files.  The service numbers the updates and keeps them until a later offset confirms them.  Requests
may not reach the service, answers may not arrive or may not be usable, and an answer may hold any number of the
updates; whatever happens, each command is answered once and in order (`answeredOnce_run`).
-/

namespace Cyanide

open PosixPath PyText Transition

/-- The `message` of an update; `chat` is `str` of the chat's id. -/
structure TelegramMessage where
  text : Option Str
  chat : Option Str

/-- A call of the Bot API with the token of the plugin. -/
inductive TelegramRequest where
  | sendDocument (chatId caption filename : Str) (document : List UInt8)
  | sendMessage (chatId text : Str)
  deriving DecidableEq

/-- What `os.path.exists` and `open` find at a path. -/
inductive DiskFile where
  | missing
  | unreadable
  | bytes (data : List UInt8)
  deriving DecidableEq

structure TelegramPlugin where
  token : Str
  chatId : Str
  logDir : Str
  updateOffset : ℕ
  /-- The updates that were answered, with the calls made for each. -/
  answers : List (ℕ × List TelegramRequest)

namespace TelegramPlugin

variable (U : Unicode) (s : TelegramPlugin)

def init (token chatId logDir : Str) : TelegramPlugin := ⟨token, chatId, logDir, 0, []⟩

/-- `start` makes the thread of the poll loop. -/
def listens : Bool := !s.token.isEmpty && !s.chatId.isEmpty

/-- The report files with their labels. -/
def reports : List (Str × Str) :=
  let dir := join s.logDir "reports".toList
  [(join dir "cyanide_iocs.stix.json".toList, "STIX 2.1 IOC Bundle".toList),
    (join dir "cyanide_iocs.misp.json".toList, "MISP IOC Event".toList)]

def noReportsText : Str :=
  "⚠️ No IOC reports have been generated yet. Reports are produced automatically ".toList ++
    "when IOC reporting is enabled and events occur.".toList

/-- `_send_report_documents`; every exception is caught inside of it. -/
def sendReportDocuments (disk : Str → DiskFile) : List TelegramRequest :=
  let found := s.reports.filter fun r => disk r.1 ≠ .missing
  if found = [] then [.sendMessage s.chatId noReportsText]
  else found.filterMap fun r =>
    match disk r.1 with
    | .bytes data =>
      some (.sendDocument s.chatId ("📄 <b>Cyanide Report — ".toList ++ r.2 ++ "</b>".toList) (basename r.1) data)
    | _ => none

/-- The loop answers the message. -/
def asksReport (chatId : Str) (message : Option TelegramMessage) : Bool :=
  let text := U.lower (strip ((message.bind (·.text)).getD []))
  let incoming := (message.bind (·.chat)).getD []
  incoming == chatId && (text == "/report".toList || text == "/report@cyanidebot".toList)

/-- One update in the loop over the result. -/
def handleUpdate (disk : Str → DiskFile) (update : ℕ × Option TelegramMessage) : TelegramPlugin :=
  { s with
    updateOffset := update.1 + 1
    answers := s.answers ++
      if asksReport U s.chatId update.2 then [(update.1, s.sendReportDocuments disk)] else [] }

/-- The parameter `offset` of `getUpdates`. -/
def offset : Option ℕ := if s.updateOffset = 0 then none else some s.updateOffset

end TelegramPlugin

/-- The plugin and the updates of its bot. -/
structure TelegramBot where
  plugin : TelegramPlugin
  updates : Feed (Option TelegramMessage)

/-- What becomes of one request of the poll loop. -/
inductive PollOutcome where
  /-- The request does not reach the service. -/
  | unsent
  /-- The service gets the request, and what comes back raises or is an error. -/
  | unanswered
  /-- The result has the first `n` updates that are kept. -/
  | answered (n : ℕ)

inductive TelegramEvent where
  /-- The service has a new update, with a number that may leave some out. -/
  | update (gap : ℕ) (message : Option TelegramMessage)
  /-- A round of the poll loop; the files are as `disk` has them when the update is handled. -/
  | poll (outcome : PollOutcome) (disk : ℕ → Str → DiskFile)

namespace TelegramBot

variable (U : Unicode) (s : TelegramBot)

def init (token chatId logDir : Str) : TelegramBot := ⟨TelegramPlugin.init token chatId logDir, .empty⟩

def poll (disk : ℕ → Str → DiskFile) : PollOutcome → TelegramBot
  | .unsent => s
  | .unanswered => { s with updates := s.updates.confirm s.plugin.offset }
  | .answered n =>
    let updates := s.updates.confirm s.plugin.offset
    ⟨(updates.kept.take n).foldl (fun p u => p.handleUpdate U (disk u.1) u) s.plugin, updates⟩

def step : TelegramEvent → TelegramBot
  | .update gap message => { s with updates := s.updates.publish gap message }
  | .poll outcome disk => if s.plugin.listens then s.poll U disk outcome else s

/-- The updates with a command from the chat. -/
def requests (chatId : Str) (es : List (ℕ × Option TelegramMessage)) : List ℕ :=
  (es.filter fun e => TelegramPlugin.asksReport U chatId e.2).map Prod.fst

def answered : List ℕ := s.plugin.answers.map Prod.fst

variable {U s}

theorem requests_append (chatId : Str) (es es' : List (ℕ × Option TelegramMessage)) :
    requests U chatId (es ++ es') = requests U chatId es ++ requests U chatId es' := by
  rw [requests, List.filter_append, List.map_append]
  rfl

/-- The plugin has gone through the updates below its offset, and each answer is the report files. -/
structure GoneThrough (U : Unicode) (token chatId logDir : Str) (s : TelegramBot) : Prop where
  sameToken : s.plugin.token = token
  sameChat : s.plugin.chatId = chatId
  sameDir : s.plugin.logDir = logDir
  floor : s.updates.floor ≤ s.plugin.updateOffset
  next : s.plugin.updateOffset ≤ s.updates.next
  answered : s.answered = requests U chatId (s.updates.before s.plugin.updateOffset)
  files : ∀ a ∈ s.plugin.answers, ∃ disk, a.2 = (TelegramPlugin.init token chatId logDir).sendReportDocuments disk

theorem sendReportDocuments_congr {p p' : TelegramPlugin} (hchat : p.chatId = p'.chatId) (hdir : p.logDir = p'.logDir)
    (disk : Str → DiskFile) : p.sendReportDocuments disk = p'.sendReportDocuments disk := by
  unfold TelegramPlugin.sendReportDocuments TelegramPlugin.reports
  rw [hchat, hdir]

/-- The loop over the updates of one result. -/
private theorem foldl_handleUpdate (disk : ℕ → Str → DiskFile) (es : List (ℕ × Option TelegramMessage))
    (p : TelegramPlugin) : ∃ answers,
      es.foldl (fun p u => p.handleUpdate U (disk u.1) u) p =
        { p with updateOffset := Feed.readTo p.updateOffset es, answers := p.answers ++ answers } ∧
      answers.map Prod.fst = requests U p.chatId es ∧
      ∀ a ∈ answers, ∃ disk, a.2 = p.sendReportDocuments disk := by
  induction es generalizing p with
  | nil => exact ⟨[], by rw [List.append_nil]; rfl, rfl, by simp⟩
  | cons e es ih =>
    obtain ⟨answers, hp, hids, hfiles⟩ := ih (p.handleUpdate U (disk e.1) e)
    refine ⟨(if TelegramPlugin.asksReport U p.chatId e.2 then [(e.1, p.sendReportDocuments (disk e.1))] else []) ++
      answers, ?_, ?_, ?_⟩
    · rw [List.foldl_cons, hp, ← List.append_assoc]
      rfl
    · rw [List.map_append, hids]
      simp only [requests, List.filter_cons]
      split <;> rfl
    · intro a ha
      rcases List.mem_append.1 ha with ha | ha
      · split at ha
        · rw [List.mem_singleton.1 ha]
          exact ⟨_, rfl⟩
        · cases ha
      · obtain ⟨disk', hdisk⟩ := hfiles a ha
        exact ⟨disk', hdisk.trans (sendReportDocuments_congr rfl rfl disk')⟩

theorem goneThrough_init (token chatId logDir : Str) : GoneThrough U token chatId logDir (init token chatId logDir) :=
  ⟨rfl, rfl, rfl, le_rfl, le_rfl, rfl, by simp [init, TelegramPlugin.init]⟩

/-- The updates that the service sends are those from the offset on. -/
theorem kept_confirm (h : s.updates.floor ≤ s.plugin.updateOffset) :
    (s.updates.confirm s.plugin.offset).kept = s.updates.log.filter (s.plugin.updateOffset ≤ ·.1) := by
  have hfloor : (s.updates.confirm s.plugin.offset).floor = s.plugin.updateOffset := by
    unfold Feed.confirm TelegramPlugin.offset
    split
    · rename_i hzero
      rw [hzero] at h ⊢
      simpa using h
    · exact max_eq_right h
  rw [Feed.kept, hfloor]
  rfl

variable {token chatId logDir : Str}

theorem GoneThrough.confirm (h : GoneThrough U token chatId logDir s) :
    GoneThrough U token chatId logDir { s with updates := s.updates.confirm s.plugin.offset } where
  sameToken := h.sameToken
  sameChat := h.sameChat
  sameDir := h.sameDir
  floor := by
    refine max_le h.floor ?_
    unfold TelegramPlugin.offset
    split
    · exact Nat.zero_le _
    · exact le_rfl
  next := h.next
  answered := h.answered
  files := h.files

theorem GoneThrough.answer (h : GoneThrough U token chatId logDir s) (disk : ℕ → Str → DiskFile) (n : ℕ) :
    GoneThrough U token chatId logDir (s.poll U disk (.answered n)) := by
  have hpre : (s.updates.confirm s.plugin.offset).kept.take n <+:
      (s.updates.confirm s.plugin.offset).log.filter (s.plugin.updateOffset ≤ ·.1) := by
    rw [kept_confirm h.floor]
    exact List.take_prefix n _
  obtain ⟨answers, hp, hids, hfiles⟩ := foldl_handleUpdate (U := U) disk
    ((s.updates.confirm s.plugin.offset).kept.take n) s.plugin
  unfold poll
  dsimp only
  rw [hp]
  exact {
    sameToken := h.sameToken
    sameChat := h.sameChat
    sameDir := h.sameDir
    floor := h.confirm.floor.trans (Feed.le_readTo hpre)
    next := Feed.readTo_le_next (f := s.updates.confirm s.plugin.offset) h.next fun e he =>
      (List.mem_filter.1 (hpre.subset he)).1
    answered := by
      show (s.plugin.answers ++ answers).map Prod.fst = _
      rw [List.map_append, hids, Feed.before_readTo hpre, requests_append, h.sameChat]
      exact congrArg (· ++ _) h.answered
    files := by
      intro a ha
      rcases List.mem_append.1 ha with ha | ha
      · exact h.files a ha
      · obtain ⟨disk', hdisk⟩ := hfiles a ha
        exact ⟨disk', hdisk.trans (sendReportDocuments_congr h.sameChat h.sameDir disk')⟩ }

theorem goneThrough_step (h : GoneThrough U token chatId logDir s) (e : TelegramEvent) :
    GoneThrough U token chatId logDir (s.step U e) := by
  cases e with
  | update gap message =>
    exact ⟨h.sameToken, h.sameChat, h.sameDir, h.floor, h.next.trans (Feed.next_le_publish gap message),
      h.answered.trans (by rw [← Feed.before_publish h.next gap message]; rfl), h.files⟩
  | poll outcome disk =>
    unfold step
    dsimp only
    split
    · cases outcome with
      | unsent => exact h
      | unanswered => exact h.confirm
      | answered n => exact h.answer disk n
    · exact h

/-- Whatever requests and answers are lost on the way, the commands from the configured chat are answered each once and
in order, with the report files, and a poll that gets all updates leaves none unanswered. -/
theorem answeredOnce_run (U : Unicode) (token chatId logDir : Str) (events : List TelegramEvent) :
    let s := run (step U) (init token chatId logDir) events
    s.answered <+: requests U chatId s.updates.log ∧
      (∀ a ∈ s.plugin.answers, ∃ disk, a.2 = (TelegramPlugin.init token chatId logDir).sendReportDocuments disk) ∧
      (token ≠ [] → chatId ≠ [] → ∀ n disk, s.updates.log.length ≤ n →
        (s.step U (.poll (.answered n) disk)).answered = requests U chatId s.updates.log) := by
  intro s
  have h : GoneThrough U token chatId logDir s :=
    invariant_of_steps (I := GoneThrough U token chatId logDir) (G := fun _ _ => True) (fun s e hs _ => goneThrough_step hs e)
      (goneThrough_init token chatId logDir) (meets_of_forall fun _ _ _ => trivial)
  refine ⟨?_, h.files, fun htoken hchat n disk hn => ?_⟩
  · have hall := congrArg (requests U chatId) (Feed.before_append_from (f := s.updates) s.plugin.updateOffset)
    rw [requests_append] at hall
    rw [h.answered, ← hall]
    exact List.prefix_append _ _
  · have hlistens : s.plugin.listens = true := by
      simp [TelegramPlugin.listens, h.sameToken, h.sameChat, htoken, hchat]
    have hpoll : s.step U (.poll (.answered n) disk) = s.poll U disk (.answered n) := if_pos hlistens
    have hread : (s.poll U disk (.answered n)).plugin.updateOffset =
        Feed.readTo s.plugin.updateOffset (s.updates.log.filter (s.plugin.updateOffset ≤ ·.1)) := by
      obtain ⟨answers, hp, -⟩ := foldl_handleUpdate (U := U) disk
        ((s.updates.confirm s.plugin.offset).kept.take n) s.plugin
      unfold poll
      dsimp only
      rw [hp, kept_confirm h.floor, List.take_of_length_le ((List.length_filter_le _ _).trans hn)]
    rw [hpoll, (h.answer disk n).answered, hread]
    exact congrArg (requests U chatId) (Feed.before_readTo_all (f := s.updates) s.plugin.updateOffset)

/-- Two commands, of which the second comes after a lost answer. -/
theorem answeredOnce_run_lost : ((run (step ascii) (init "t".toList "1".toList "log".toList)
    [.update 7 (some ⟨some "/report ".toList, some "1".toList⟩), .poll (.answered 1) fun _ _ => .missing,
      .poll .unanswered fun _ _ => .missing, .update 0 (some ⟨some "/Report".toList, some "1".toList⟩)]).step ascii
        (.poll (.answered 2) fun _ _ => .missing)).answered = [7, 8] :=
  ((answeredOnce_run ascii "t".toList "1".toList "log".toList
    [.update 7 (some ⟨some "/report ".toList, some "1".toList⟩), .poll (.answered 1) fun _ _ => .missing,
      .poll .unanswered fun _ _ => .missing, .update 0 (some ⟨some "/Report".toList, some "1".toList⟩)]).2.2
        (by decide) (by decide) 2 (fun _ _ => .missing) (by decide)).trans (by decide)

end TelegramBot

end Cyanide
