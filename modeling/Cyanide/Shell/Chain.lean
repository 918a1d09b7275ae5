import Cyanide.Lib.AndOrList
import Cyanide.Vfs.Nodes

/-!
# Command chains

`_execute_nodes` runs the nodes of a command line one after the other, with one flag that says whether the next node
is to be executed and one return code.  `executeNodes` is generic in the monad in which the nodes run, and in what a
node's command is; `ChainOp` is the operator after a node.  The loop is compared with the evaluation of the chain as
an and-or list, in which the operator after a node is the connective in front of the next one.
-/

namespace Cyanide

open PosixPath AndOrList

/-- A chain operator: `&&`, `||`, `;` or `&`. -/
inductive ChainOp where
  | and
  | or
  | seq
  | background
  deriving DecidableEq

structure CommandNode (α : Type) where
  cmdLine : α
  operator : Option ChainOp
  deriving DecidableEq

/-- What running a command returns. -/
structure Output where
  stdout : Str
  stderr : Str
  rc : Int
  deriving DecidableEq

/-- The local variables of the loop; `truncated` is set by its `break`. -/
structure ExecState where
  fullStdout : Str := []
  fullStderr : Str := []
  lastRc : Int := 0
  shouldExecute : Bool := true
  truncated : Bool := false

section Loop

variable {α : Type} {m : Type → Type} [Monad m] (maxOutputSize : ℕ) (background pipeline : α → m Output)

/-- The method `_should_skip_node`; where it holds, the loop executes the node. -/
def shouldSkipNode (node : CommandNode α) (lastRc : Int) : Bool :=
  if node.operator = some .or ∧ lastRc ≠ 0 then false
  else if node.operator = some .seq ∨ node.operator = none then false
  else true

/-- The method `_get_next_should_execute`. -/
def getNextShouldExecute (node : CommandNode α) (rc : Int) : Bool :=
  if node.operator = some .and then rc = 0
  else if node.operator = some .or then rc ≠ 0
  else true

def runNode (node : CommandNode α) : m Output :=
  if node.operator = some .background then background node.cmdLine else pipeline node.cmdLine

/-- The rest of the loop body, after the node has run. -/
def afterNode (st : ExecState) (node : CommandNode α) (o : Output) : ExecState :=
  let fullStdout := st.fullStdout ++ o.stdout
  let fullStderr := st.fullStderr ++ o.stderr
  if fullStdout.length > maxOutputSize then
    { st with
      fullStdout := fullStdout.take maxOutputSize ++ "\n[output truncated]\n".toList
      fullStderr := fullStderr ++ "shell: maximum output size exceeded\n".toList
      lastRc := 1
      truncated := true }
  else
    { st with fullStdout, fullStderr, lastRc := o.rc, shouldExecute := getNextShouldExecute node o.rc }

/-- The loop body. -/
def executeNode (st : ExecState) (node : CommandNode α) : m ExecState :=
  if st.truncated then pure st
  else if !st.shouldExecute && !shouldSkipNode node st.lastRc then pure st
  else do return afterNode maxOutputSize { st with shouldExecute := true } node (← runNode background pipeline node)

def executeLoop (nodes : List (CommandNode α)) (st : ExecState := {}) : m ExecState :=
  nodes.foldlM (executeNode maxOutputSize background pipeline) st

/-- The method `_execute_nodes`. -/
def executeNodes (nodes : List (CommandNode α)) : m Output := do
  let st ← executeLoop maxOutputSize background pipeline nodes
  return ⟨st.fullStdout, st.fullStderr, st.lastRc⟩

end Loop

/-! ### The chain as an and-or list -/

section AndOr

variable {α : Type}

/-- The connective that an operator is for the node after it. -/
def CommandNode.connective (node : CommandNode α) : Connective :=
  match node.operator with
  | some .and => .and
  | some .or => .or
  | some .seq | some .background | none => .seq

/-- The nodes with the connective in front of each of them, `c` being the first one. -/
def andOrItems : Connective → List (CommandNode α) → List (Connective × CommandNode α)
  | _, [] => []
  | c, node :: nodes => (c, node) :: andOrItems node.connective nodes

/-- The nodes with their positions, counted from `k`. -/
def numbered : ℕ → List (CommandNode α) → List (CommandNode (ℕ × α))
  | _, [] => []
  | k, node :: nodes => ⟨(k, node.cmdLine), node.operator⟩ :: numbered (k + 1) nodes

/-- The loop runs the same nodes, in the same order, as the and-or list does, and reports the status of the list. -/
def RunsAsAndOrList {σ : Type} (maxOutputSize : ℕ) (background pipeline : α → StateM σ Output) (s : σ)
    (nodes : List (CommandNode α)) : Prop :=
  let code := executeNodes maxOutputSize (logged background) (logged pipeline) (numbered 0 nodes) ([], s)
  let list := eval (runNode (logged background) (logged pipeline)) Output.rc 0
    (andOrItems .seq (numbered 0 nodes)) ([], s)
  code.2.1 = list.2.1 ∧ code.1.rc = list.1

/-- After this node a skip at status `lastRc` ends: the next node is executed. -/
def EndsSkip (node : CommandNode α) (lastRc : Int) : Prop :=
  node.operator = some .seq ∨ node.operator = none ∨ (node.operator = some .or ∧ lastRc ≠ 0)

/-- Along the evaluation as an and-or list from `status`, each node that is passed over ends the skip, and the node
after it does not. -/
def SkipsCleanly {σ : Type} (run : CommandNode α → StateM σ Output) :
    σ → Int → Connective → List (CommandNode α) → Prop
  | _, _, _, [] => True
  | s, status, c, node :: nodes =>
    if c.allows status then SkipsCleanly run (run node s).2 (run node s).1.rc node.connective nodes
    else EndsSkip node status ∧ (∀ next ∈ nodes.head?, ¬ EndsSkip next status) ∧
      SkipsCleanly run s status node.connective nodes

end AndOr

theorem shouldSkipNode_eq_false_iff {α : Type} (node : CommandNode α) (lastRc : Int) :
    shouldSkipNode node lastRc = false ↔ EndsSkip node lastRc := by
  unfold shouldSkipNode EndsSkip
  split_ifs with h₁ h₂
  · simp [h₁]
  · simp only [true_iff]
    tauto
  · simp only [false_iff]
    tauto

theorem EndsSkip.allows {α : Type} {node : CommandNode α} {lastRc : Int} (h : EndsSkip node lastRc) :
    node.connective.allows lastRc = true := by
  unfold CommandNode.connective
  rcases h with h | h | ⟨h, hrc⟩
  · rw [h]; rfl
  · rw [h]; rfl
  · rw [h]; simpa [Connective.allows] using hrc

theorem getNextShouldExecute_eq {α : Type} (node : CommandNode α) (rc : Int) :
    getNextShouldExecute node rc = node.connective.allows rc := by
  unfold getNextShouldExecute CommandNode.connective Connective.allows
  rcases node with ⟨_, _ | _ | _ | _ | _⟩ <;> simp

/-! ### Steps of the loop -/

section Steps

variable {α σ : Type} (maxOutputSize : ℕ) (background pipeline : α → StateM σ Output) {st : ExecState}
  {node : CommandNode α} {nodes : List (CommandNode α)} (s : σ)

private theorem executeLoop_nil : executeLoop maxOutputSize background pipeline [] st s = (st, s) := rfl

private theorem executeLoop_run (ht : st.truncated = false)
    (h : st.shouldExecute = true ∨ shouldSkipNode node st.lastRc = true) :
    executeLoop maxOutputSize background pipeline (node :: nodes) st s =
      executeLoop maxOutputSize background pipeline nodes
        (afterNode maxOutputSize { st with shouldExecute := true } node (runNode background pipeline node s).1)
        (runNode background pipeline node s).2 := by
  have hrun : ¬ (!st.shouldExecute && !shouldSkipNode node st.lastRc) = true := by
    rcases h with h | h <;> simp [h]
  rw [executeLoop, List.foldlM_cons, executeNode, ht, if_neg (by decide), if_neg hrun]
  rfl

private theorem executeLoop_skip (ht : st.truncated = false) (h : st.shouldExecute = false)
    (hskip : shouldSkipNode node st.lastRc = false) :
    executeLoop maxOutputSize background pipeline (node :: nodes) st s =
      executeLoop maxOutputSize background pipeline nodes st s := by
  rw [executeLoop, List.foldlM_cons, executeNode, ht, if_neg (by decide), h, hskip, if_pos (by decide)]
  rfl

private theorem executeLoop_truncated (ht : st.truncated = true) :
    executeLoop maxOutputSize background pipeline nodes st s = (st, s) := by
  induction nodes with
  | nil => rfl
  | cons node nodes ih =>
    rw [executeLoop, List.foldlM_cons, executeNode, if_pos ht]
    exact ih

/-- When a skip ends just before a node that is executed, the loop goes on as if there had been no skip. -/
private theorem executeLoop_resume (ht : st.truncated = false) (hskip : shouldSkipNode node st.lastRc = true) :
    executeLoop maxOutputSize background pipeline (node :: nodes) st s =
      executeLoop maxOutputSize background pipeline (node :: nodes) { st with shouldExecute := true } s := by
  have ht' : ({ st with shouldExecute := true } : ExecState).truncated = false := ht
  rw [executeLoop_run _ _ _ _ ht (.inr hskip), executeLoop_run _ _ _ _ ht' (.inl rfl)]

theorem afterNode_of_not_truncated {o : Output} (h : (afterNode maxOutputSize st node o).truncated = false) :
    (afterNode maxOutputSize st node o).lastRc = o.rc ∧
      (afterNode maxOutputSize st node o).shouldExecute = node.connective.allows o.rc := by
  simp only [afterNode] at h ⊢
  split_ifs at h ⊢
  exact ⟨rfl, getNextShouldExecute_eq node o.rc⟩

/-- A run that does not end truncated was not truncated after its first node. -/
theorem not_truncated_of_executeLoop
    (h : (executeLoop maxOutputSize background pipeline nodes st s).1.truncated = false) : st.truncated = false := by
  by_contra hst
  rw [Bool.not_eq_false] at hst
  rw [executeLoop_truncated _ _ _ _ hst, hst] at h
  contradiction

end Steps

section Log

variable {α σ : Type} (maxOutputSize : ℕ) (background pipeline : α → StateM σ Output)

theorem runNode_logged (node : CommandNode (ℕ × α)) (log : List ℕ) (s : σ) :
    runNode (logged background) (logged pipeline) node (log, s) =
      ((runNode background pipeline ⟨node.cmdLine.2, node.operator⟩ s).1, node.cmdLine.1 :: log,
        (runNode background pipeline ⟨node.cmdLine.2, node.operator⟩ s).2) := by
  unfold runNode
  split_ifs <;> rfl

theorem logs_runNode : Logs (σ := σ) (fun node : CommandNode (ℕ × α) => node.cmdLine.1)
    (runNode (logged background) (logged pipeline)) := fun node (log, s) => by
  rw [runNode_logged]

private theorem log_executeLoop (nodes : List (CommandNode (ℕ × α))) (st : ExecState) (ls : List ℕ × σ) :
    ls.1 ⊆ (executeLoop maxOutputSize (logged background) (logged pipeline) nodes st ls).2.1 ∧
      (executeLoop maxOutputSize (logged background) (logged pipeline) nodes st ls).2.1 ⊆
        nodes.map (·.cmdLine.1) ++ ls.1 := by
  induction nodes generalizing st ls with
  | nil => simp [executeLoop_nil]
  | cons node nodes ih =>
    cases ht : st.truncated with
    | true => simp [executeLoop_truncated _ _ _ _ ht]
    | false =>
      by_cases hrun : st.shouldExecute = true ∨ shouldSkipNode node st.lastRc = true
      · rw [executeLoop_run _ _ _ _ ht hrun]
        obtain ⟨hgrow, honly⟩ := ih (afterNode maxOutputSize { st with shouldExecute := true } node
          (runNode (logged background) (logged pipeline) node ls).1)
          (runNode (logged background) (logged pipeline) node ls).2
        rw [logs_runNode] at hgrow honly
        refine ⟨List.Subset.trans (List.subset_cons_self _ _) hgrow, fun i hi => ?_⟩
        have := honly hi
        simp only [List.mem_append, List.mem_cons, List.map_cons] at this ⊢
        tauto
      · rw [not_or, Bool.not_eq_true, Bool.not_eq_true] at hrun
        rw [executeLoop_skip _ _ _ _ ht hrun.1 hrun.2]
        obtain ⟨hgrow, honly⟩ := ih st ls
        exact ⟨hgrow, List.Subset.trans honly (by simp)⟩

/-- The log does not change what the loop does. -/
theorem executeLoop_logged (nodes : List (CommandNode α)) (k : ℕ) (st : ExecState) (log : List ℕ) (s : σ) :
    (executeLoop maxOutputSize (logged background) (logged pipeline) (numbered k nodes) st (log, s)).1 =
        (executeLoop maxOutputSize background pipeline nodes st s).1 ∧
      (executeLoop maxOutputSize (logged background) (logged pipeline) (numbered k nodes) st (log, s)).2.2 =
        (executeLoop maxOutputSize background pipeline nodes st s).2 := by
  induction nodes generalizing k st log s with
  | nil => exact ⟨rfl, rfl⟩
  | cons node nodes ih =>
    rw [numbered]
    cases ht : st.truncated with
    | true =>
      rw [executeLoop_truncated _ _ _ _ ht, executeLoop_truncated _ _ _ _ ht]
      exact ⟨rfl, rfl⟩
    | false =>
      by_cases hrun : st.shouldExecute = true ∨ shouldSkipNode node st.lastRc = true
      · have hrun' : st.shouldExecute = true ∨
          shouldSkipNode (⟨(k, node.cmdLine), node.operator⟩ : CommandNode (ℕ × α)) st.lastRc = true := hrun
        rw [executeLoop_run _ _ _ _ ht hrun, executeLoop_run _ _ _ _ ht hrun', runNode_logged]
        exact ih _ _ _ _
      · rw [not_or, Bool.not_eq_true, Bool.not_eq_true] at hrun
        have hskip' : shouldSkipNode (⟨(k, node.cmdLine), node.operator⟩ : CommandNode (ℕ × α)) st.lastRc = false :=
          hrun.2
        rw [executeLoop_skip _ _ _ _ ht hrun.1 hrun.2, executeLoop_skip _ _ _ _ ht hrun.1 hskip']
        exact ih _ _ _ _

end Log

/-! ### Agreement with the and-or list -/

section Agreement

variable {α σ : Type} (maxOutputSize : ℕ) (background pipeline : α → StateM σ Output)

private theorem le_of_mem_numbered {k i : ℕ} {nodes : List (CommandNode α)}
    (hi : i ∈ (numbered k nodes).map (·.cmdLine.1)) : k ≤ i := by
  induction nodes generalizing k with
  | nil => simp [numbered] at hi
  | cons node nodes ih =>
    rcases List.mem_cons.1 hi with rfl | hi
    · exact le_rfl
    · exact (Nat.le_succ k).trans (ih hi)

private theorem andOrItems_labels (c : Connective) (nodes : List (CommandNode (ℕ × α))) :
    (andOrItems c nodes).map (fun item => item.2.cmdLine.1) = nodes.map (·.cmdLine.1) := by
  induction nodes generalizing c with
  | nil => rfl
  | cons node nodes ih => simp [andOrItems, ih]

/-- From the loop state `st` on, the loop runs the nodes that the and-or list runs from `st.lastRc` on. -/
def AgreesFrom (st : ExecState) (c : Connective) (nodes : List (CommandNode (ℕ × α))) (ls : List ℕ × σ) : Prop :=
  let code := executeLoop maxOutputSize (logged background) (logged pipeline) nodes st ls
  let list := eval (runNode (logged background) (logged pipeline)) Output.rc st.lastRc (andOrItems c nodes) ls
  code.2.1 = list.2.1 ∧ code.1.lastRc = list.1

variable {st : ExecState} {c : Connective} {node : CommandNode (ℕ × α)} {nodes : List (CommandNode (ℕ × α))}
  {ls : List ℕ × σ}

/-- A node that both of them run. -/
private theorem agreesFrom_run (ht : st.truncated = false) (hst : st.shouldExecute = true)
    (hc : c.allows st.lastRc = true) {o : Output} {ls' : List ℕ × σ}
    (ho : runNode (logged background) (logged pipeline) node ls = (o, ls'))
    (hcap : (afterNode maxOutputSize { st with shouldExecute := true } node o).truncated = false) :
    AgreesFrom maxOutputSize background pipeline st c (node :: nodes) ls ↔
      AgreesFrom maxOutputSize background pipeline (afterNode maxOutputSize { st with shouldExecute := true } node o)
        node.connective nodes ls' := by
  unfold AgreesFrom
  rw [executeLoop_run _ _ _ _ ht (.inl hst), andOrItems, eval_of_allows _ _ _ hc, ho,
    (afterNode_of_not_truncated _ hcap).1]

/-- A node that the loop runs and the and-or list passes over: their logs differ from then on. -/
private theorem not_agreesFrom_of_run (ht : st.truncated = false) (hc : c.allows st.lastRc = false)
    (hskip : shouldSkipNode node st.lastRc = true) (hnew : node.cmdLine.1 ∉ nodes.map (·.cmdLine.1))
    (hlog : node.cmdLine.1 ∉ ls.1) : ¬ AgreesFrom maxOutputSize background pipeline st c (node :: nodes) ls := by
  rintro ⟨h, -⟩
  rw [executeLoop_run _ _ _ _ ht (.inr hskip), andOrItems, eval_of_not_allows _ _ _ hc] at h
  have hmem := (log_executeLoop maxOutputSize background pipeline nodes
    (afterNode maxOutputSize { st with shouldExecute := true } node
      (runNode (logged background) (logged pipeline) node ls).1)
    (runNode (logged background) (logged pipeline) node ls).2).1
  rw [logs_runNode, h] at hmem
  have := log_eval_subset (logs_runNode background pipeline) _ _ _ (hmem List.mem_cons_self)
  rw [andOrItems_labels] at this
  exact (List.mem_append.1 this).elim hnew hlog

/-- A node that the and-or list runs and the loop passes over. -/
private theorem not_agreesFrom_of_skip (ht : st.truncated = false) (hst : st.shouldExecute = false)
    (hc : c.allows st.lastRc = true) (hskip : shouldSkipNode node st.lastRc = false)
    (hnew : node.cmdLine.1 ∉ nodes.map (·.cmdLine.1)) (hlog : node.cmdLine.1 ∉ ls.1) :
    ¬ AgreesFrom maxOutputSize background pipeline st c (node :: nodes) ls := by
  rintro ⟨h, -⟩
  have hmem : node.cmdLine.1 ∈ (eval (runNode (logged background) (logged pipeline)) Output.rc st.lastRc
      (andOrItems c (node :: nodes)) ls).2.1 := label_mem_log_eval (logs_runNode background pipeline) hc ls
  rw [← h, executeLoop_skip _ _ _ _ ht hst hskip] at hmem
  exact (List.mem_append.1 ((log_executeLoop _ _ _ _ _ _).2 hmem)).elim hnew hlog

/-- A node that both of them pass over. -/
private theorem agreesFrom_skip (ht : st.truncated = false) (hst : st.shouldExecute = false)
    (hc : c.allows st.lastRc = false) (hskip : shouldSkipNode node st.lastRc = false) :
    AgreesFrom maxOutputSize background pipeline st c (node :: nodes) ls ↔
      AgreesFrom maxOutputSize background pipeline st node.connective nodes ls := by
  unfold AgreesFrom
  rw [executeLoop_skip _ _ _ _ ht hst hskip, andOrItems, eval_of_not_allows _ _ _ hc]

private theorem agreesFrom_resume (ht : st.truncated = false) (hskip : shouldSkipNode node st.lastRc = true) :
    AgreesFrom maxOutputSize background pipeline st c (node :: nodes) ls ↔
      AgreesFrom maxOutputSize background pipeline { st with shouldExecute := true } c (node :: nodes) ls := by
  unfold AgreesFrom
  rw [executeLoop_resume _ _ _ _ ht hskip]

/-- The loop at a flag and a return code, against the and-or list at the same connective and status. -/
private theorem agreesFrom_iff (nodes : List (CommandNode α)) (k : ℕ) (st : ExecState) (c : Connective) (log : List ℕ)
    (s : σ) (hst : st.shouldExecute = c.allows st.lastRc) (hlog : ∀ i ∈ log, i < k)
    (hcap : (executeLoop maxOutputSize (logged background) (logged pipeline) (numbered k nodes) st
      (log, s)).1.truncated = false) :
    AgreesFrom maxOutputSize background pipeline st c (numbered k nodes) (log, s) ↔
      SkipsCleanly (runNode background pipeline) s st.lastRc c nodes := by
  have ht := not_truncated_of_executeLoop _ _ _ _ hcap
  induction nodes generalizing k st c log s with
  | nil => simp [AgreesFrom, numbered, andOrItems, executeLoop_nil, SkipsCleanly]
  | cons node nodes ih =>
    have hk : k ∉ log := fun hk => lt_irrefl k (hlog k hk)
    have hnew : k ∉ (numbered (k + 1) nodes).map (·.cmdLine.1) := fun hi =>
      absurd (le_of_mem_numbered hi) (by omega)
    rw [numbered] at hcap ⊢
    cases hc : c.allows st.lastRc with
    | true =>
      rw [hc] at hst
      rcases hrun : runNode background pipeline node s with ⟨o, s'⟩
      have ho : runNode (logged background) (logged pipeline) ⟨(k, node.cmdLine), node.operator⟩ (log, s) =
          (o, k :: log, s') := by
        rw [runNode_logged]
        simp [hrun]
      rw [executeLoop_run _ _ _ _ ht (.inl hst), ho] at hcap
      have hcap' := not_truncated_of_executeLoop _ _ _ _ hcap
      obtain ⟨hrc, hnext⟩ := afterNode_of_not_truncated _ hcap'
      have hlog' : ∀ i ∈ k :: log, i < k + 1 := by
        simpa using fun i hi => Nat.lt_succ_of_lt (hlog i hi)
      have hrest := ih (k + 1) _ node.connective (k :: log) s' (by rw [hnext, hrc]; rfl) hlog' hcap hcap'
      rw [agreesFrom_run _ _ _ ht hst hc ho hcap', SkipsCleanly, if_pos hc, hrun, ← hrc]
      exact hrest
    | false =>
      rw [hc] at hst
      rw [SkipsCleanly, if_neg (by simp [hc])]
      cases hskip : shouldSkipNode node st.lastRc with
      | true =>
        have hends : ¬ EndsSkip node st.lastRc := by simp [← shouldSkipNode_eq_false_iff, hskip]
        exact iff_of_false (not_agreesFrom_of_run _ _ _ ht hc hskip hnew hk) fun h => hends h.1
      | false =>
        have hends := (shouldSkipNode_eq_false_iff node st.lastRc).1 hskip
        have hlog' : ∀ i ∈ log, i < k + 1 := fun i hi => Nat.lt_succ_of_lt (hlog i hi)
        have hskip' : shouldSkipNode (⟨(k, node.cmdLine), node.operator⟩ : CommandNode (ℕ × α)) st.lastRc = false :=
          hskip
        rw [executeLoop_skip _ _ _ _ ht hst hskip'] at hcap
        rw [agreesFrom_skip _ _ _ ht hst hc hskip']
        -- the and-or list runs the next node, and the loop has to end its skip there
        cases nodes with
        | nil => simp [hends, AgreesFrom, numbered, andOrItems, executeLoop_nil, SkipsCleanly]
        | cons next nodes =>
          have hk' : k + 1 ∉ log := fun hk => absurd (hlog' _ hk) (lt_irrefl _)
          have hnew' : k + 1 ∉ (numbered (k + 2) nodes).map (·.cmdLine.1) := fun hi =>
            absurd (le_of_mem_numbered hi) (by omega)
          cases hresume : shouldSkipNode next st.lastRc with
          | true =>
            have hnext : ¬ EndsSkip next st.lastRc := by simp [← shouldSkipNode_eq_false_iff, hresume]
            have hresume' : shouldSkipNode (⟨(k + 1, next.cmdLine), next.operator⟩ : CommandNode (ℕ × α))
              st.lastRc = true := hresume
            rw [numbered, executeLoop_resume _ _ _ _ ht hresume'] at hcap
            rw [numbered, agreesFrom_resume _ _ _ ht hresume']
            have hrest := ih (k + 1) { st with shouldExecute := true } node.connective log s hends.allows.symm hlog'
              hcap ht
            refine hrest.trans ⟨fun h => ⟨hends, by simpa using hnext, h⟩, fun h => h.2.2⟩
          | false =>
            have hnext := (shouldSkipNode_eq_false_iff next st.lastRc).1 hresume
            refine iff_of_false (not_agreesFrom_of_skip _ _ _ ht hst hends.allows hresume hnew' hk') ?_
            exact fun h => h.2.1 next (by simp) hnext

/-- A chain runs as its and-or list just when every skip in it is one that the loop's flag ends in time. -/
theorem runsAsAndOrList_iff (s : σ) (nodes : List (CommandNode α))
    (hcap : (executeLoop maxOutputSize background pipeline nodes {} s).1.truncated = false) :
    RunsAsAndOrList maxOutputSize background pipeline s nodes ↔
      SkipsCleanly (runNode background pipeline) s 0 .seq nodes := by
  rw [← (executeLoop_logged maxOutputSize background pipeline nodes 0 {} [] s).1] at hcap
  exact agreesFrom_iff maxOutputSize background pipeline nodes 0 {} .seq [] s rfl (by simp) hcap

end Agreement

section Examples

/-- A shell in which the command `false` fails and every other one succeeds. -/
def falseFails (cmd : Str) : StateM Unit Output := return ⟨[], [], if cmd = "false".toList then 1 else 0⟩

theorem runsAsAndOrList_or_seq : RunsAsAndOrList 1048576 falseFails falseFails ()
    [⟨"true".toList, some .or⟩, ⟨"ls".toList, some .seq⟩, ⟨"id".toList, some .background⟩] :=
  (runsAsAndOrList_iff 1048576 falseFails falseFails () _ (by decide)).2 (by
    simp [SkipsCleanly, Connective.allows, CommandNode.connective, EndsSkip, runNode, falseFails])

/-- In `false && ls ; id` the last command never runs. -/
theorem not_runsAsAndOrList_and_seq :
    (executeLoop 1048576 falseFails falseFails
        [⟨"false".toList, some .and⟩, ⟨"ls".toList, some .seq⟩, ⟨"id".toList, none⟩] {} ()).1.truncated = false ∧
      ¬ RunsAsAndOrList 1048576 falseFails falseFails ()
        [⟨"false".toList, some .and⟩, ⟨"ls".toList, some .seq⟩, ⟨"id".toList, none⟩] :=
  ⟨by decide, fun h => absurd h.1 (by decide)⟩

end Examples

end Cyanide
