import Cyanide.Shell.History
import Cyanide.Shell.Quoting

/-!
# Words that are joined into a command line

`sudo`, `doas`, `pkexec` and `su -c` hand the words of a command to the shell as `shlex.join` of them.
`execute_join_iff` says when the shell runs just that command on it: variables must not be expanded inside of the
quotes, and a word that looks like a redirection must be the last one.
-/

namespace Cyanide

open PosixPath PyText Traced Shlex

/-! ### The joined line -/

/-- The scanners find no operator. -/
def NoOperator (quote : Option Char) (s : Str) : Prop := ∀ bit ∈ mark isOperatorChar quote s, bit = false

theorem noOperator_append {quote : Option Char} {s t : Str} :
    NoOperator quote (s ++ t) ↔ NoOperator quote s ∧ NoOperator (quoteAfter quote s) t := by
  simp only [NoOperator, mark_append, List.forall_mem_append]

theorem quoteAfter_append (quote : Option Char) (s t : Str) :
    quoteAfter quote (s ++ t) = quoteAfter (quoteAfter quote s) t := List.foldl_append

theorem noOperator_cons {quote : Option Char} {c : Char} {s : Str} :
    NoOperator quote (c :: s) ↔ (isOperatorChar c && quote.isNone) = false ∧
      NoOperator (if isQuoteChar c then updateQuoteState c quote else quote) s := List.forall_mem_cons

theorem parseChainFrom_of_noOperator {quote : Option Char} {token s : Str} (h : NoOperator quote s) :
    parseChainFrom quote token s = if strip (token ++ s) = [] then [] else [(strip (token ++ s), none)] := by
  induction quote, token, s using parseChainFrom.induct with
  | case1 quote token hnil => rw [parseChainFrom, List.append_nil]
  | case2 quote token hne => rw [parseChainFrom, List.append_nil]
  | case3 token cs ih => exact absurd (noOperator_cons.1 h).1 (by decide)
  | case4 token cs ih => exact absurd (noOperator_cons.1 h).1 (by decide)
  | case5 token cs ih => exact absurd (noOperator_cons.1 h).1 (by decide)
  | case6 token cs _ ih => exact absurd (noOperator_cons.1 h).1 (by decide)
  | case7 quote token c cs h1 h2 h3 h4 ih =>
    rw [parseChainFrom.eq_6 _ _ _ _ h1 h2 h3 h4, ih (noOperator_cons.1 h).2, List.append_assoc]
    rfl

theorem splitIgnoreQuotesFrom_of_noOperator {quote : Option Char} {current s : Str} (h : NoOperator quote s) :
    splitIgnoreQuotesFrom '|' quote current s = if strip (current ++ s) = [] then [] else [strip (current ++ s)] := by
  induction s generalizing quote current with
  | nil => rw [splitIgnoreQuotesFrom, List.append_nil]
  | cons c s ih =>
    obtain ⟨hc, hs⟩ := noOperator_cons.1 h
    have hshape : current ++ c :: s = current ++ [c] ++ s := List.append_cons _ _ _
    rw [splitIgnoreQuotesFrom, hshape]
    by_cases hq : isQuoteChar c = true
    · rw [if_pos hq] at hs ⊢
      exact ih hs
    · rw [if_neg hq] at hs ⊢
      have hbar : ¬(c = '|' ∧ quote = none) := by
        rintro ⟨rfl, rfl⟩
        cases hc
      rw [if_neg hbar]
      exact ih hs

private theorem not_isSpace_of_isSafe {c : Char} (h : isSafe c = true) : isSpace c = false := by
  rw [isSafe, Bool.or_eq_true] at h
  rcases h with h | h
  · have hval : c.toNat = c.val.toNat := rfl
    have hrange : 0x30 ≤ c.toNat ∧ c.toNat ≤ 0x7a := by
      change (decide (c.val ≥ 65 ∧ c.val ≤ 90) || (c.val ≥ 97 && c.val ≤ 122) || (c.val ≥ 48 && c.val ≤ 57)) = true at h
      simp only [Bool.or_eq_true, Bool.and_eq_true, decide_eq_true_eq, ge_iff_le, UInt32.le_iff_toNat_le,
        UInt32.reduceToNat] at h
      omega
    simp only [isSpace, Bool.or_eq_false_iff, Bool.and_eq_false_iff, decide_eq_false_iff_not]
    omega
  · have hall : ∀ d ∈ "_@%+=:,./-".toList, isSpace d = false := by simp; decide
    exact hall c (by simpa using h)

theorem isSafe_not_special {c : Char} (h : isSafe c = true) :
    isOperatorChar c = false ∧ isQuoteChar c = false ∧ isSpace c = false := by
  obtain ⟨-, hquote, -⟩ := isSafe_plain h
  have hne : ∀ d : Char, isSafe d = false → c ≠ d := by
    rintro d hd rfl
    rw [h] at hd
    cases hd
  refine ⟨?_, hquote, ?_⟩
  · simp only [isOperatorChar, Bool.or_eq_false_iff, decide_eq_false_iff_not]
    exact ⟨⟨hne _ (by decide), hne _ (by decide)⟩, hne _ (by decide)⟩
  · exact not_isSpace_of_isSafe h

private theorem noOperator_quoteBody (s : Str) :
    NoOperator (some '\'') (quoteBody s) ∧ quoteAfter (some '\'') (quoteBody s) = some '\'' := by
  induction s with
  | nil => exact ⟨by simp [NoOperator, mark, quoteBody], rfl⟩
  | cons c s ih =>
    have hone : NoOperator (some '\'') (if c = '\'' then "'\"'\"'".toList else [c]) ∧
        quoteAfter (some '\'') (if c = '\'' then "'\"'\"'".toList else [c]) = some '\'' := by
      split_ifs with hc
      · exact ⟨by unfold NoOperator; decide, by decide⟩
      · refine ⟨by simp [NoOperator, mark], ?_⟩
        simp [quoteAfter, updateQuoteState, hc]
    rw [quoteBody, List.flatMap_cons, noOperator_append, quoteAfter_append, hone.2]
    exact ⟨⟨hone.1, ih.1⟩, ih.2⟩

/-- The operator characters of a word are in quotes, which are closed behind it. -/
theorem noOperator_quote (s : Str) : NoOperator none (quote s) ∧ quoteAfter none (quote s) = none := by
  unfold quote
  split_ifs with hnil hsafe
  · exact ⟨by unfold NoOperator; decide, by decide⟩
  · rw [List.all_eq_true] at hsafe
    clear hnil
    induction s with
    | nil => exact ⟨by simp [NoOperator, mark], rfl⟩
    | cons c s ih =>
      obtain ⟨hop, hquote, -⟩ := isSafe_not_special (hsafe c (by simp))
      obtain ⟨hs, hafter⟩ := ih fun d hd => hsafe d (by simp [hd])
      rw [noOperator_cons, hop, hquote]
      refine ⟨⟨rfl, hs⟩, ?_⟩
      rw [quoteAfter, List.foldl_cons, hquote]
      exact hafter
  · obtain ⟨hbody, hafter⟩ := noOperator_quoteBody s
    rw [List.cons_append, noOperator_cons, quoteAfter, List.foldl_cons]
    have hopen : (if isQuoteChar '\'' then updateQuoteState '\'' none else none) = some '\'' := by decide
    rw [hopen]
    refine ⟨⟨rfl, noOperator_append.2 ⟨hbody, ?_⟩⟩, ?_⟩
    · rw [hafter]
      unfold NoOperator
      decide
    · have := quoteAfter_append (some '\'') (quoteBody s) ['\'']
      rw [hafter] at this
      exact this

theorem noOperator_join (w : List Str) : NoOperator none (Shlex.join w) := by
  unfold Shlex.join
  induction w with
  | nil => simp [NoOperator, mark, List.intercalate]
  | cons x w ih =>
    cases w with
    | nil => simpa [List.intercalate] using (noOperator_quote x).1
    | cons y w =>
      rw [List.map_cons, List.map_cons, List.intercalate_cons_cons, ← List.map_cons, List.append_assoc,
        noOperator_append, (noOperator_quote x).2]
      refine ⟨(noOperator_quote x).1, ?_⟩
      rw [List.singleton_append, noOperator_cons]
      exact ⟨rfl, ih⟩

/-- A quoted word has no white space at its ends. -/
private theorem quote_ends (s : Str) :
    quote s ≠ [] ∧ (∀ c ∈ (quote s).head?, isSpace c = false) ∧ ∀ c ∈ (quote s).getLast?, isSpace c = false := by
  unfold quote
  split_ifs with hnil hsafe
  · refine ⟨by simp, fun c hc => ?_, fun c hc => ?_⟩
    all_goals
      obtain rfl : '\'' = c := by simpa using hc
      decide
  · rw [List.all_eq_true] at hsafe
    refine ⟨hnil, fun c hc => (isSafe_not_special (hsafe c (List.mem_of_mem_head? hc))).2.2, fun c hc => ?_⟩
    exact (isSafe_not_special (hsafe c (List.mem_of_getLast? hc))).2.2
  · refine ⟨by simp, fun c hc => ?_, fun c hc => ?_⟩
    · obtain rfl : '\'' = c := by simpa using hc
      decide
    · rw [List.getLast?_append_of_ne_nil _ (by simp)] at hc
      obtain rfl : '\'' = c := by simpa using hc
      decide

private theorem join_ends {w : List Str} (hw : w ≠ []) : Shlex.join w ≠ [] ∧
    (∀ c ∈ (Shlex.join w).head?, isSpace c = false) ∧ ∀ c ∈ (Shlex.join w).getLast?, isSpace c = false := by
  unfold Shlex.join
  induction w with
  | nil => exact absurd rfl hw
  | cons x w ih =>
    obtain ⟨hne, hhead, hlast⟩ := quote_ends x
    cases w with
    | nil => simpa [List.intercalate] using ⟨hne, hhead, hlast⟩
    | cons y w =>
      obtain ⟨hne', -, hlast'⟩ := ih (by simp)
      rw [List.map_cons, List.map_cons, List.intercalate_cons_cons, ← List.map_cons]
      refine ⟨by simp [hne], ?_, ?_⟩
      · rwa [List.append_assoc, List.head?_append_of_ne_nil _ hne]
      · rwa [List.getLast?_append_of_ne_nil _ hne']

theorem strip_join {w : List Str} (hw : w ≠ []) : strip (Shlex.join w) = Shlex.join w := by
  obtain ⟨-, hhead, hlast⟩ := join_ends hw
  exact strip_eq_self hhead hlast

/-- The joined line is one node. -/
theorem parseChain_join {w : List Str} (hw : w ≠ []) : parseChain (Shlex.join w) = [⟨Shlex.join w, none⟩] := by
  rw [parseChain, parseChainFrom_of_noOperator (noOperator_join w), List.nil_append, strip_join hw,
    if_neg (join_ends hw).1]
  simp [(join_ends hw).1]

/-- The joined line is one segment. -/
theorem splitIgnoreQuotes_join {w : List Str} (hw : w ≠ []) :
    splitIgnoreQuotes (Shlex.join w) '|' = [Shlex.join w] := by
  rw [splitIgnoreQuotes, splitIgnoreQuotesFrom_of_noOperator (noOperator_join w), List.nil_append, strip_join hw,
    if_neg (join_ends hw).1]

/-! ### Redirections among the words -/

/-- What the redirection scanner looks for. -/
def IsRedirection (word : Str) : Prop := word = ">".toList ∨ word = ">>".toList

instance (word : Str) : Decidable (IsRedirection word) := inferInstanceAs (Decidable (_ ∨ _))

/-- Words that are no redirections, and the last one, are kept. -/
theorem redirectionsOf_of_none {w : List Str} (r : Redirections) (h : ∀ word ∈ w.dropLast, ¬IsRedirection word) :
    redirectionsOf r w = { r with cleanParts := r.cleanParts ++ w } := by
  induction r, w using redirectionsOf.induct with
  | case1 r => rw [redirectionsOf, List.append_nil]
  | case2 r token => rw [redirectionsOf]
  | case3 r file parts ih => exact absurd (.inr rfl) (h _ (by simp))
  | case4 r file parts _ ih => exact absurd (.inl rfl) (h _ (by simp))
  | case5 r token file parts h1 h2 ih =>
    rw [redirectionsOf, if_neg h1, if_neg h2, ih fun word hw => h word (by simp [hw]), List.append_assoc]
    rfl

theorem cleanParts_redirectionsOf (r : Redirections) (w : List Str) :
    ∃ x, (redirectionsOf r w).cleanParts = r.cleanParts ++ x ∧ x.length ≤ w.length := by
  induction r, w using redirectionsOf.induct with
  | case1 r => exact ⟨[], by simp [redirectionsOf], le_rfl⟩
  | case2 r token => exact ⟨[token], rfl, le_rfl⟩
  | case3 r file parts ih =>
    obtain ⟨x, hx, hlen⟩ := ih
    rw [redirectionsOf, if_pos rfl]
    exact ⟨x, hx, by simp only [List.length_cons]; omega⟩
  | case4 r file parts hne ih =>
    obtain ⟨x, hx, hlen⟩ := ih
    rw [redirectionsOf, if_neg hne, if_pos rfl]
    exact ⟨x, hx, by simp only [List.length_cons]; omega⟩
  | case5 r token file parts h1 h2 ih =>
    obtain ⟨x, hx, hlen⟩ := ih
    rw [redirectionsOf, if_neg h1, if_neg h2, hx]
    exact ⟨token :: x, by simp, by simp only [List.length_cons] at hlen ⊢; omega⟩

/-- A redirection before the last word is taken out of the words. -/
theorem cleanParts_lt {w : List Str} (r : Redirections) {word : Str} (hw : word ∈ w.dropLast)
    (hword : IsRedirection word) :
    ∃ x, (redirectionsOf r w).cleanParts = r.cleanParts ++ x ∧ x.length < w.length := by
  induction r, w using redirectionsOf.induct with
  | case1 r => simp at hw
  | case2 r token => simp at hw
  | case3 r file parts ih =>
    obtain ⟨x, hx, hlen⟩ := cleanParts_redirectionsOf { r with target := some file, append := true } parts
    rw [redirectionsOf, if_pos rfl]
    exact ⟨x, hx, by simp only [List.length_cons]; omega⟩
  | case4 r file parts hne ih =>
    obtain ⟨x, hx, hlen⟩ := cleanParts_redirectionsOf { r with target := some file } parts
    rw [redirectionsOf, if_neg hne, if_pos rfl]
    exact ⟨x, hx, by simp only [List.length_cons]; omega⟩
  | case5 r token file parts h1 h2 ih =>
    have htail : word ∈ (file :: parts).dropLast := by
      rw [List.dropLast_cons_cons, List.mem_cons] at hw
      rcases hw with rfl | hw
      · exact hword.elim (absurd · h2) (absurd · h1)
      · exact hw
    obtain ⟨x, hx, hlen⟩ := ih htail
    rw [redirectionsOf, if_neg h1, if_neg h2, hx]
    exact ⟨token :: x, by simp, by simp only [List.length_cons] at hlen ⊢; omega⟩

/-- The name of a command is kept, and a redirection among its arguments is not. -/
theorem cleanParts_of_command {name : Str} {args : List Str} (hcommand : (lookupCommand name).isSome = true)
    {word : Str} (hw : word ∈ (name :: args).dropLast) (hword : IsRedirection word) :
    ∃ x, (redirectionsOf {} (name :: args)).cleanParts = name :: x ∧ x.length < args.length := by
  have hname : ¬IsRedirection name := by
    rintro (rfl | rfl)
    all_goals
      revert hcommand
      decide
  cases args with
  | nil => simp at hw
  | cons file parts =>
    rw [List.dropLast_cons_cons, List.mem_cons] at hw
    rcases hw with rfl | hw
    · exact absurd hword hname
    obtain ⟨x, hx, hlen⟩ := cleanParts_lt { cleanParts := [name] } hw hword
    refine ⟨x, ?_, hlen⟩
    rw [redirectionsOf, if_neg fun h => hname (.inr h), if_neg fun h => hname (.inl h)]
    exact hx

/-! ### The command on its own -/

section Run

variable (W : World) (depth : ℕ) (c : Ctx)

/-- The result of a command line of one command, whose output may be cut. -/
def limitOutput (maxOutputSize : ℕ) (o : Output) : Result :=
  let st := afterNode maxOutputSize {} (⟨(), none⟩ : CommandNode Unit) o
  ⟨.text st.fullStdout, st.fullStderr, st.lastRc⟩

/-- What executing a line does that runs the command `name` with the arguments `args`, and nothing else. -/
def runAlone (line name : Str) (args : List Str) : Shell Result := do
  let e ← get
  step (.enter c (depth + 1) line e)
  modify fun e => { e with history := e.history ++ [line] }
  step (.segment c line)
  let r ← runCommandInstance W (execute W depth) c name args (.text [])
  return limitOutput e.config.maxOutputSize ⟨← addOutput c [] r.stdout, r.stderr, r.rc⟩

variable {W depth c} {name : Str} {args : List Str} {e : ShellEmulator}

theorem executeSingleCommand_join (run : Ctx → Str → Shell Result) (input : Content)
    (hcommand : (lookupCommand name).isSome = true) (halias : e.aliases.lookup name = none) :
    executeSingleCommand W run c (Shlex.join (name :: args)) input e =
      runCommandInstance W run c name args input e := by
  have hne : lookupCommand name ≠ none := Option.isSome_iff_ne_none.1 hcommand
  have hresolve : resolveAlias e.aliases name args = (name, args) := by
    rw [resolveAlias, halias]
    rfl
  rw [executeSingleCommand, split_join]
  show (Traced.get >>= _) e = _
  rw [get_bind, hresolve]
  simp only [hne, false_and, if_false]

theorem parseRedirections_join (w : List Str) :
    parseRedirections (Shlex.join w) =
      .ok (Shlex.join (redirectionsOf {} w).cleanParts, (redirectionsOf {} w).target,
        (redirectionsOf {} w).append) := by
  rw [parseRedirections, split_join]
  rfl

/-- A chain of one node. -/
theorem toResult_executeNodes (maxOutputSize : ℕ) (background pipeline : Str → Shell Output) (line : Str) :
    Output.toResult <$> executeNodes maxOutputSize background pipeline [⟨line, none⟩] =
      do return limitOutput maxOutputSize (← pipeline line) := by
  simp only [executeNodes, executeLoop, List.foldlM_cons, List.foldlM_nil, executeNode, runNode, map_bind, map_pure,
    Bool.false_eq_true, if_false, Bool.not_true, Bool.false_and, reduceCtorEq, bind_assoc, pure_bind]
  rfl

/-- A joined line is executed as one segment. -/
theorem executeLine_join (run : Ctx → Str → Shell Result) {w : List Str} (hw : w ≠ [])
    (hexpand : expandVars W.unicode e.env (Shlex.join w) = Shlex.join w) (hlimit : 1 ≤ e.config.maxChainDepth) :
    executeLine W run c (Shlex.join w) e =
      (do
        let st ← executeSegment W run c {} (Shlex.join w)
        return limitOutput e.config.maxOutputSize ⟨← addOutput c [] st.inputData, st.errOut, st.lastRc⟩ : Shell Result)
        { e with history := e.history ++ [Shlex.join w] } := by
  have hstrip : ¬strip (Shlex.join w) = [] := by
    rw [strip_join hw]
    exact (join_ends hw).1
  rw [executeLine, if_neg hstrip, modify_bind, get_bind, strip_join hw]
  simp only [hexpand, parseChain_join hw]
  rw [if_neg (by simp; omega), toResult_executeNodes]
  simp only [pipelineNode, executePipeline, splitIgnoreQuotes_join hw, List.foldlM_cons, List.foldlM_nil, bind_pure,
    bind_assoc, pure_bind]

/-- Without a redirection the segment runs its command, and nothing else. -/
theorem executeSegment_join (run : Ctx → Str → Shell Result) (hcommand : (lookupCommand name).isSome = true)
    (halias : e.aliases.lookup name = none) (hnone : ∀ word ∈ (name :: args).dropLast, ¬IsRedirection word)
    (f : PipelineState → Shell Result) :
    (executeSegment W run c {} (Shlex.join (name :: args)) >>= f) e =
      (do
        step (.segment c (Shlex.join (name :: args)))
        let r ← runCommandInstance W run c name args (.text [])
        f ⟨r.stdout, r.stderr, r.rc⟩ : Shell Result) e := by
  have hclean : redirectionsOf {} (name :: args) = { cleanParts := name :: args } := redirectionsOf_of_none {} hnone
  rw [executeSegment, parseRedirections_join, hclean]
  simp only [bind_assoc, Option.getD_none, ne_eq, not_true_eq_false, if_false, pure_bind, List.nil_append]
  refine step_bind_congr _ ?_
  exact bind_congr_left (executeSingleCommand_join run _ hcommand halias) _

/-! ### The first steps of a joined line -/

theorem runCommandInstance_steps (run : Ctx → Str → Shell Result) (input : Content)
    (hcommand : (lookupCommand name).isSome = true) :
    [.authenticate c.caught name args e] <+: (runCommandInstance W run c name args input e).steps := by
  obtain ⟨cls, hcls⟩ := Option.isSome_iff_exists.1 hcommand
  rw [runCommandInstance, hcls]
  refine List.IsPrefix.trans ?_ (steps_prefix_tryCatch _ _ e)
  rw [authAndExecute, get_bind, steps_step_bind]
  exact List.cons_prefix_cons.2 ⟨rfl, List.nil_prefix⟩

/-- The command gets the words that the redirection scanner keeps. -/
theorem executeSegment_steps (run : Ctx → Str → Shell Result) {w x : List Str}
    (hclean : (redirectionsOf {} w).cleanParts = name :: x) (hcommand : (lookupCommand name).isSome = true)
    (halias : e.aliases.lookup name = none) :
    [.segment c (Shlex.join w), .authenticate c.caught name x e] <+:
      (executeSegment W run c {} (Shlex.join w) e).steps := by
  rw [executeSegment, parseRedirections_join, hclean, steps_step_bind]
  refine List.cons_prefix_cons.2 ⟨rfl, ?_⟩
  refine List.IsPrefix.trans ?_ (steps_prefix_bind _ _ e)
  rw [executeSingleCommand_join run _ hcommand halias]
  exact runCommandInstance_steps run _ hcommand

theorem runAlone_steps (W : World) (depth : ℕ) (c : Ctx) (e : ShellEmulator) (args : List Str) (line : Str)
    (hcommand : (lookupCommand name).isSome = true) :
    [.enter c (depth + 1) line e, .segment c line,
      .authenticate c.caught name args { e with history := e.history ++ [line] }] <+:
        (runAlone W depth c line name args e).steps := by
  rw [runAlone, get_bind, steps_step_bind, modify_bind, steps_step_bind]
  refine List.cons_prefix_cons.2 ⟨rfl, List.cons_prefix_cons.2 ⟨rfl, ?_⟩⟩
  exact (runCommandInstance_steps _ _ hcommand).trans (steps_prefix_bind _ _ _)

/-- A prompt that is pending gets the line. -/
theorem execute_steps_of_pending {callback : Callback} {line : Str} (h : e.pendingInputCallback = some callback) :
    [.enter c (depth + 1) line e, .answer c callback line e] <+: (execute W (depth + 1) c line e).steps := by
  rw [execute, get_bind, steps_step_bind]
  simp only [executeWith]
  rw [get_bind, h]
  simp only []
  rw [modify_bind, steps_step_bind]
  exact List.cons_prefix_cons.2 ⟨rfl, List.cons_prefix_cons.2 ⟨rfl, List.nil_prefix⟩⟩

/-- A chain that may have no command is refused. -/
theorem execute_steps_of_limit {w : List Str} (hw : w ≠ []) (hpending : e.pendingInputCallback = none)
    (hexpand : expandVars W.unicode e.env (Shlex.join w) = Shlex.join w) (hlimit : e.config.maxChainDepth = 0) :
    (execute W (depth + 1) c (Shlex.join w) e).steps = [.enter c (depth + 1) (Shlex.join w) e] := by
  have hstrip : ¬strip (Shlex.join w) = [] := by
    rw [strip_join hw]
    exact (join_ends hw).1
  rw [execute, get_bind, steps_step_bind]
  simp only [executeWith]
  rw [get_bind, hpending]
  simp only []
  rw [executeLine, if_neg hstrip, modify_bind, get_bind]
  simp only [hexpand, parseChain_join hw, hlimit]
  rfl

/-- The command gets the words that the redirection scanner keeps. -/
theorem execute_steps_of_clean {w x : List Str} (hw : w ≠ []) (hpending : e.pendingInputCallback = none)
    (hexpand : expandVars W.unicode e.env (Shlex.join w) = Shlex.join w) (hlimit : 1 ≤ e.config.maxChainDepth)
    (hclean : (redirectionsOf {} w).cleanParts = name :: x) (hcommand : (lookupCommand name).isSome = true)
    (halias : e.aliases.lookup name = none) :
    [.enter c (depth + 1) (Shlex.join w) e, .segment c (Shlex.join w),
      .authenticate c.caught name x { e with history := e.history ++ [Shlex.join w] }] <+:
        (execute W (depth + 1) c (Shlex.join w) e).steps := by
  rw [execute, get_bind, steps_step_bind]
  simp only [executeWith]
  rw [get_bind, hpending]
  simp only []
  rw [executeLine_join _ hw hexpand hlimit]
  refine List.cons_prefix_cons.2 ⟨rfl, ?_⟩
  rw [hpending]
  exact (executeSegment_steps _ hclean hcommand (by exact halias)).trans (steps_prefix_bind _ _ _)

/-! ### Argument fidelity -/

/-- When variables do not change the joined words, the shell runs just that command on them if and only if it asks for
nothing, takes a chain of one command, and no word but the last is a redirection. -/
theorem execute_join_iff (W : World) (depth : ℕ) (c : Ctx) (e : ShellEmulator) (name : Str) (args : List Str)
    (hcommand : (lookupCommand name).isSome = true) (halias : e.aliases.lookup name = none)
    (hexpand : expandVars W.unicode e.env (Shlex.join (name :: args)) = Shlex.join (name :: args)) :
    execute W (depth + 1) c (Shlex.join (name :: args)) e =
        runAlone W depth c (Shlex.join (name :: args)) name args e ↔
      e.pendingInputCallback = none ∧ 1 ≤ e.config.maxChainDepth ∧
        ∀ word ∈ (name :: args).dropLast, ¬IsRedirection word := by
  have hw : name :: args ≠ [] := List.cons_ne_nil _ _
  constructor
  · intro h
    have halone := runAlone_steps W depth c e args (Shlex.join (name :: args)) hcommand
    rw [← h] at halone
    have hpending : e.pendingInputCallback = none := by
      cases hcallback : e.pendingInputCallback with
      | none => rfl
      | some callback =>
        have hanswer := List.prefix_of_prefix_length_le (execute_steps_of_pending hcallback) halone (by simp)
        simp [List.cons_prefix_cons] at hanswer
    have hlimit : 1 ≤ e.config.maxChainDepth := by
      by_contra hlt
      rw [execute_steps_of_limit hw hpending hexpand (by omega)] at halone
      exact absurd halone.length_le (by simp)
    refine ⟨hpending, hlimit, fun word hword hredirection => ?_⟩
    obtain ⟨x, hx, hlen⟩ := cleanParts_of_command hcommand hword hredirection
    have heq := (List.prefix_of_prefix_length_le
      (execute_steps_of_clean hw hpending hexpand hlimit hx hcommand halias) halone (by simp)).eq_of_length (by simp)
    have hargs : x = args := by simpa using heq
    rw [hargs] at hlen
    exact absurd hlen (lt_irrefl _)
  · rintro ⟨hpending, hlimit, hnone⟩
    rw [execute, get_bind, runAlone, get_bind]
    refine step_bind_congr _ ?_
    simp only [executeWith]
    rw [get_bind, hpending]
    simp only []
    rw [executeLine_join _ hw hexpand hlimit, modify_bind]
    exact executeSegment_join _ hcommand (by exact halias) hnone _

/-- Words with quotes, spaces and operators that reach `echo` as they are. -/
theorem execute_join_special :
    execute plainWorld 10 .client (Shlex.join ["echo".toList, "it's".toList, "a; b | c && d".toList, ">".toList])
        (plainShell root) =
      runAlone plainWorld 9 .client (Shlex.join ["echo".toList, "it's".toList, "a; b | c && d".toList, ">".toList])
        "echo".toList ["it's".toList, "a; b | c && d".toList, ">".toList] (plainShell root) :=
  (execute_join_iff plainWorld 9 .client (plainShell root) "echo".toList
    ["it's".toList, "a; b | c && d".toList, ">".toList] (by decide) (by decide) (by decide +kernel)).2
    ⟨rfl, by decide, by decide⟩

/-- The redirection scanner drops the quotes around a word, and then takes it for an operator. -/
theorem execute_join_ne_redirection :
    (lookupCommand "echo".toList).isSome = true ∧ (plainShell root).aliases.lookup "echo".toList = none ∧
      execute plainWorld 10 .client (Shlex.join ["echo".toList, "a".toList, ">".toList, "b".toList])
          (plainShell root) ≠
        runAlone plainWorld 9 .client (Shlex.join ["echo".toList, "a".toList, ">".toList, "b".toList])
          "echo".toList ["a".toList, ">".toList, "b".toList] (plainShell root) := by
  refine ⟨by decide, by decide, fun h => ?_⟩
  have hresult := congrArg (fun o => o.result.toOption) h
  revert hresult
  decide +kernel

end Run

end Cyanide
