import Cyanide.Lib.Glyphs
import Cyanide.Shell.History
import Cyanide.Vfs.Layers

/-!
# Redirections of a segment

`_parse_redirections` looks for words that are spelled `>` or `>>` after the quotation is gone, and never takes the
append mode back.  `segment_redirections` says when it finds the redirections of a segment, with the mode of the last
one, and when the file then holds the output.
-/

namespace Cyanide

open PosixPath PyText Shlex Traced

/-! ### What a segment says -/

/-- The words, and the file of the last redirection with its own mode, are what `_parse_redirections` finds. -/
def ParsesTo (segment : Str) (words : List Str) (rs : List (Bool × Str)) : Prop :=
  ∃ clean target append, parseRedirections segment = .ok (clean, target, append) ∧ Shlex.split clean = .ok words ∧
    target = rs.getLast?.map Prod.snd ∧ ∀ r ∈ rs.getLast?, append = r.1

/-- A word of the command is spelled like an operator, and something follows it. -/
def MisreadsWord : List Token → Prop
  | [] => False
  | .word w :: ts => (ts ≠ [] ∧ (w = ">".toList ∨ w = ">>".toList)) ∨ MisreadsWord ts
  | .redirect _ :: .word _ :: ts => MisreadsWord ts
  | .redirect _ :: _ => False

instance decidableMisreadsWord : (ts : List Token) → Decidable (MisreadsWord ts)
  | [] => isFalse id
  | .word w :: ts =>
    have := decidableMisreadsWord ts
    inferInstanceAs (Decidable ((ts ≠ [] ∧ (w = ">".toList ∨ w = ">>".toList)) ∨ MisreadsWord ts))
  | .redirect _ :: .word _ :: ts => decidableMisreadsWord ts
  | .redirect _ :: .redirect _ :: _ => isFalse id
  | [.redirect _] => isFalse id

/-- The last redirection appends, or none does. -/
def OneMode (rs : List (Bool × Str)) : Prop := ∀ r ∈ rs.getLast?, r.1 = true ∨ ∀ r' ∈ rs, r'.1 = false

/-- What is in a file, and an empty text where there is none. -/
def oldContent (s : FakeFilesystem) (path : Str) : Content :=
  if s.pathExists path then (s.getContent path).1 else .text []

/-- One content behind another one of its kind. -/
def Content.followedBy : Content → Content → Option Content
  | .text a, .text b => some (.text (a ++ b))
  | .bytes a, .bytes b => some (.bytes (a ++ b))
  | _, _ => none

/-- The segment has run, from a command that left the shell as `e` with an output, and the file of the redirection holds
the output, behind what it held if that is kept. -/
def HoldsOutput (o : Outcome Exn ShellEmulator Step PipelineState) (e : ShellEmulator) (stdout : Content)
    (r : Bool × Str) : Prop :=
  (∃ st, o.result = .ok st) ∧
    some (o.state.fs.getContent (resolvePath e.cwd r.2)).1 =
      if r.1 then (oldContent e.fs (resolvePath e.cwd r.2)).followedBy stdout else some stdout

/-! ### Parsing -/

theorem redirectionsOf_tokens {ts : List Token} {words : List Str} {rs : List (Bool × Str)}
    (h : redirects ts = some (words, rs)) (hread : ¬MisreadsWord ts) (r : Redirections) :
    redirectionsOf r (ts.map Token.text) =
      { cleanParts := r.cleanParts ++ words
        target := (rs.getLast?.map Prod.snd).or r.target
        append := r.append || rs.any Prod.fst } := by
  fun_induction redirects ts generalizing r words rs with
  | case1 =>
    cases h
    simp [redirectionsOf]
  | case2 w ts ih =>
    rw [MisreadsWord, not_or] at hread
    obtain ⟨⟨words', rs'⟩, hrest, heq⟩ := Option.map_eq_some_iff.1 h
    cases heq
    have hrest := ih hrest hread.2 { r with cleanParts := r.cleanParts ++ [w] }
    cases ts with
    | nil =>
      rw [List.map_nil, redirectionsOf] at hrest
      change redirectionsOf r [w] = _
      rw [redirectionsOf, hrest, List.append_assoc]
      rfl
    | cons t ts =>
      have hw : w ≠ ">".toList ∧ w ≠ ">>".toList := by
        simpa [not_or] using hread.1
      change redirectionsOf r (w :: t.text :: ts.map Token.text) = _
      rw [redirectionsOf, if_neg hw.2, if_neg hw.1]
      refine hrest.trans ?_
      rw [List.append_assoc]
      rfl
  | case3 append file ts ih =>
    obtain ⟨⟨words', rs'⟩, hrest, heq⟩ := Option.map_eq_some_iff.1 h
    cases heq
    rw [MisreadsWord] at hread
    have hlast : (((append, file) :: rs').getLast?.map Prod.snd).or r.target =
        (rs'.getLast?.map Prod.snd).or (some file) := by
      rw [List.getLast?_cons]
      cases rs'.getLast? <;> rfl
    cases append with
    | true =>
      change redirectionsOf r (">>".toList :: file :: ts.map Token.text) = _
      rw [redirectionsOf, if_pos rfl, ih hrest hread, hlast, List.any_cons]
      simp
    | false =>
      change redirectionsOf r (">".toList :: file :: ts.map Token.text) = _
      rw [redirectionsOf, if_neg (by decide), if_pos rfl, ih hrest hread, hlast, List.any_cons]
      rfl
  | case4 => cases h

/-- The lexer spells the tokens of a segment whose operators stand alone. -/
theorem split_eq_text {segment : Str} {gs : List (List Glyph)} (hgs : glyphs .blank [] segment = .ok gs)
    (halone : ∀ w ∈ gs, StandsAlone w) : Shlex.split segment = .ok ((tokensOf gs).map Token.text) := by
  have htokens : tokensOf gs = gs.map tokenOf := by
    rw [tokensOf, ← List.flatMap_singleton' (gs.map tokenOf), List.flatMap_map]
    refine List.flatMap_congr fun w hw => ?_
    exact cutWord_of_standsAlone (halone w hw) (ne_nil_of_glyphs hgs (.inl rfl) w hw)
  have htext : Token.text ∘ tokenOf = text := funext text_tokenOf
  rw [split_eq_map, hgs, htokens, List.map_map, htext]
  rfl

theorem oneMode_iff {rs : List (Bool × Str)} : OneMode rs ↔ ∀ r ∈ rs.getLast?, rs.any Prod.fst = r.1 := by
  refine forall₂_congr fun r hr => ?_
  have hmem : r ∈ rs := List.mem_of_getLast? hr
  cases hmode : r.1 with
  | true => exact iff_of_true (.inl rfl) (List.any_eq_true.2 ⟨r, hmem, hmode⟩)
  | false => simp [List.any_eq_false]

section

variable {segment : Str} {gs : List (List Glyph)} {words : List Str} {rs : List (Bool × Str)}
  (hgs : glyphs .blank [] segment = .ok gs) (hrs : redirects (tokensOf gs) = some (words, rs))
  (halone : ∀ w ∈ gs, StandsAlone w) (hread : ¬MisreadsWord (tokensOf gs))

include hgs hrs halone hread

theorem parseRedirections_eq :
    parseRedirections segment = .ok (Shlex.join words, rs.getLast?.map Prod.snd, rs.any Prod.fst) := by
  rw [parseRedirections, split_eq_text hgs halone]
  change Except.ok _ = _
  rw [redirectionsOf_tokens hrs hread, List.nil_append, Option.or_none, Bool.false_or]

/-- The redirections are found with the mode of the last one exactly when that is the mode of them together. -/
theorem parsesTo_iff : ParsesTo segment words rs ↔ OneMode rs := by
  have hparse := parseRedirections_eq hgs hrs halone hread
  rw [oneMode_iff]
  constructor
  · rintro ⟨clean, target, append, heq, -, -, hmode⟩
    rw [hparse] at heq
    cases heq
    exact hmode
  · exact fun hmode => ⟨_, _, _, hparse, split_join words, rfl, hmode⟩

end

/-! ### Running -/

section

variable {W : World} {run : Ctx → Str → Shell Result} {c : Ctx} {st : PipelineState} {e e' : ShellEmulator}
  {r : Result} {steps : List Step}

theorem executeSegment_of_redirection {segment clean file : Str} {append : Bool}
    (hparse : parseRedirections segment = .ok (clean, some file, append)) (hfile : file ≠ [])
    (hrun : executeSingleCommand W run c clean st.inputData e = ⟨.ok r, e', steps⟩) :
    (executeSegment W run c st segment e).state = (redirectOutput c file append r.stdout e').state ∧
      ((∃ st', (executeSegment W run c st segment e).result = .ok st') ↔
        (redirectOutput c file append r.stdout e').result = .ok ()) := by
  let rest (r : Result) : Shell PipelineState := do
    redirectOutput c file append r.stdout
    return ⟨.text [], st.errOut ++ r.stderr, r.rc⟩
  have hseg : executeSegment W run c st segment e =
      (step (.segment c segment) >>= fun _ => executeSingleCommand W run c clean st.inputData >>= rest) e := by
    rw [executeSegment, hparse]
    simp only [Option.getD_some, if_pos hfile, rest]
  have hok : (executeSingleCommand W run c clean st.inputData e).result = .ok r := by rw [hrun]
  have hresult : (executeSegment W run c st segment e).result = (rest r e').result := by
    rw [hseg]
    change ((executeSingleCommand W run c clean st.inputData >>= rest) e).result = _
    rw [bind_ok hok, hrun]
  have hstate : (executeSegment W run c st segment e).state = (rest r e').state := by
    rw [hseg]
    change ((executeSingleCommand W run c clean st.inputData >>= rest) e).state = _
    rw [bind_ok hok, hrun]
  rw [hresult, hstate]
  cases hout : (redirectOutput c file append r.stdout e').result with
  | ok u =>
    rw [show rest r e' = _ from bind_ok hout _]
    exact ⟨rfl, iff_of_true ⟨_, rfl⟩ rfl⟩
  | error x =>
    rw [show rest r e' = _ from bind_error hout _]
    refine ⟨rfl, iff_of_false ?_ (by simp)⟩
    rintro ⟨st', h⟩
    cases h

/-- What is written: the output, behind the old content if that is kept. -/
def newContent (s : FakeFilesystem) (path : Str) (append : Bool) (stdout : Content) : Option Content :=
  if append then (oldContent s path).followedBy stdout else some stdout

/-- The filesystem after a look at the old content. -/
def lookedAt (s : FakeFilesystem) (path : Str) (append : Bool) : FakeFilesystem :=
  if append && s.pathExists path then (s.getContent path).2 else s

theorem existingContent_eq (path : Str) (M : Machine) :
    existingContent path M = ⟨.ok (oldContent M.fs path), { M with fs := lookedAt M.fs path true }, []⟩ := by
  unfold existingContent oldContent lookedAt
  change (if M.fs.pathExists path then Leaf.getContent path else pure (.text [])) M = _
  cases M.fs.pathExists path <;> rfl

theorem redirectOutput_eq (file : Str) (append : Bool) (stdout : Content) :
    match newContent e.fs (resolvePath e.cwd file) append stdout with
    | some content => (redirectOutput c file append stdout e).result = .ok () ∧
      (redirectOutput c file append stdout e).state.fs =
        ((lookedAt e.fs (resolvePath e.cwd file) append).mkfile (resolvePath e.cwd file) content e.username
          e.username).2
    | none => ∃ x, (redirectOutput c file append stdout e).result = .error x := by
  cases append with
  | false => exact ⟨rfl, rfl⟩
  | true =>
    let path := resolvePath e.cwd file
    let write (old : Content) : Leaf Unit := do
      let content ← addContent old stdout
      let _ ← Leaf.mkfile path content e.username e.username
    have hread := existingContent_eq path e.machine
    have hread' : (existingContent path e.machine).result = .ok (oldContent e.fs path) := by rw [hread]; rfl
    have hout : redirectOutput c file true stdout e =
        (step (.redirect c file true stdout e) >>= fun _ => onMachine (existingContent path >>= write)) e := by
      rw [redirectOutput, get_bind]
      simp only [write, if_true, path]
    let M : Machine := { e.machine with fs := lookedAt e.fs path true }
    have hresult : (redirectOutput c file true stdout e).result = (write (oldContent e.fs path) M).result := by
      rw [hout]
      change ((existingContent path >>= write) e.machine).result = _
      rw [bind_ok hread', hread]
      rfl
    have hfs : (redirectOutput c file true stdout e).state.fs = (write (oldContent e.fs path) M).state.fs := by
      rw [hout]
      change ((existingContent path >>= write) e.machine).state.fs = _
      rw [bind_ok hread', hread]
      rfl
    rw [hresult, hfs, newContent, if_pos rfl]
    cases oldContent e.fs path <;> cases stdout
    · exact ⟨rfl, rfl⟩
    · exact ⟨_, rfl⟩
    · exact ⟨_, rfl⟩
    · exact ⟨rfl, rfl⟩

theorem hasParent_lookedAt {s : FakeFilesystem} {path : Str} {append : Bool} {q : Str} (h : s.HasParent q) :
    (lookedAt s path append).HasParent q := by
  unfold lookedAt
  split_ifs
  · rcases s.getContent_snd path ∅ with hs | ⟨op, hs⟩
    · rwa [hs]
    · rw [hs]
      exact h
  · exact h

/-- The file holds what the segment says if the mode that the code has comes to the same. -/
theorem holdsOutput_iff {segment clean file : Str} {mode append : Bool}
    (hparse : parseRedirections segment = .ok (clean, some file, mode)) (hfile : file ≠ [])
    (hrun : executeSingleCommand W run c clean st.inputData e = ⟨.ok r, e', steps⟩)
    (hparent : e'.fs.HasParent (resolvePath e'.cwd file)) :
    HoldsOutput (executeSegment W run c st segment e) e' r.stdout (append, file) ↔
      newContent e'.fs (resolvePath e'.cwd file) mode r.stdout ≠ none ∧
        newContent e'.fs (resolvePath e'.cwd file) mode r.stdout =
          newContent e'.fs (resolvePath e'.cwd file) append r.stdout := by
  obtain ⟨hstate, hresult⟩ := executeSegment_of_redirection hparse hfile hrun
  rw [HoldsOutput, hresult, hstate]
  have hout := redirectOutput_eq (c := c) (e := e') file mode r.stdout
  change _ ∧ _ = newContent e'.fs (resolvePath e'.cwd file) append r.stdout ↔ _
  cases hnew : newContent e'.fs (resolvePath e'.cwd file) mode r.stdout with
  | none =>
    rw [hnew] at hout
    obtain ⟨x, hx⟩ := hout
    rw [hx]
    exact iff_of_false (fun h => by cases h.1) fun h => h.1 rfl
  | some content =>
    rw [hnew] at hout
    obtain ⟨hok, hfs⟩ := hout
    have hresolve : resolve (resolvePath e'.cwd file) = resolvePath e'.cwd file := by
      unfold resolvePath
      split_ifs <;> exact resolve_resolve _
    have hparent' : (lookedAt e'.fs (resolvePath e'.cwd file) mode).HasParent (resolve (resolvePath e'.cwd file)) := by
      rw [hresolve]
      exact hasParent_lookedAt hparent
    have hcontent : ((redirectOutput c file mode r.stdout e').state.fs.getContent (resolvePath e'.cwd file)).1 =
        content := by
      rw [hfs, FakeFilesystem.content_eq, FakeFilesystem.layer_mkfile, if_pos ⟨rfl, hparent'⟩]
      rfl
    rw [hok, hcontent]
    simp

end

/-! ### The law -/

/-- For a segment whose operators are words of their own, and where no quoted word is taken for one: the last
redirection is found with its own mode exactly when it appends or none does, and after the segment the file holds the
output as the redirection says exactly when, if the redirection appends, the old content is of the kind of the output,
and, if only an earlier one does, there is no old content. -/
theorem segment_redirections {segment : Str} {gs : List (List Glyph)} {words : List Str} {rs : List (Bool × Str)}
    (hgs : glyphs .blank [] segment = .ok gs) (hrs : redirects (tokensOf gs) = some (words, rs))
    (halone : ∀ w ∈ gs, StandsAlone w) (hread : ¬MisreadsWord (tokensOf gs)) :
    (ParsesTo segment words rs ↔ OneMode rs) ∧
    ∀ (W : World) (run : Ctx → Str → Shell Result) (c : Ctx) (st : PipelineState) (e e' : ShellEmulator) (r : Result)
      (steps : List Step) (append : Bool) (file : Str),
      executeSingleCommand W run c (Shlex.join words) st.inputData e = ⟨.ok r, e', steps⟩ →
      rs.getLast? = some (append, file) → file ≠ [] → e'.fs.HasParent (resolvePath e'.cwd file) →
      (HoldsOutput (executeSegment W run c st segment e) e' r.stdout (append, file) ↔
        if append then (oldContent e'.fs (resolvePath e'.cwd file)).followedBy r.stdout ≠ none
        else (∃ x ∈ rs, x.1 = true) →
          (oldContent e'.fs (resolvePath e'.cwd file)).followedBy r.stdout = some r.stdout) := by
  refine ⟨parsesTo_iff hgs hrs halone hread, ?_⟩
  intro W run c st e e' r steps append file hrun hlast hfile hparent
  have hparse := parseRedirections_eq hgs hrs halone hread
  rw [hlast] at hparse
  rw [holdsOutput_iff hparse hfile hrun hparent]
  have hmem : (append, file) ∈ rs := List.mem_of_getLast? hlast
  cases append with
  | true =>
    have hany : rs.any Prod.fst = true := List.any_eq_true.2 ⟨_, hmem, rfl⟩
    rw [hany, if_pos rfl, newContent, if_pos rfl]
    exact and_iff_left rfl
  | false =>
    rw [if_neg Bool.false_ne_true]
    cases hany : rs.any Prod.fst with
    | true =>
      have hearlier : ∃ x ∈ rs, x.1 = true := List.any_eq_true.1 hany
      rw [newContent, if_pos rfl, newContent, if_neg Bool.false_ne_true]
      refine ⟨fun hnew _ => hnew.2, fun hnew => ?_⟩
      rw [hnew hearlier]
      exact ⟨Option.some_ne_none _, rfl⟩
    | false =>
      have hnone : ¬∃ x ∈ rs, x.1 = true := fun hx => by
        rw [List.any_eq_true.2 hx] at hany
        cases hany
      rw [newContent, if_neg Bool.false_ne_true]
      exact iff_of_true ⟨Option.some_ne_none _, rfl⟩ fun hx => absurd hx hnone

/-- A line of output behind the old content. -/
theorem segment_redirections_append :
    ParsesTo "echo a >> f".toList ["echo".toList, "a".toList] [(true, "f".toList)] ∧
      HoldsOutput
        (executeSegment plainWorld (fun _ _ => return .ok []) .client {} "echo a >> f".toList (plainShell root))
        (plainShell root) (.text "a\n".toList) (true, "f".toList) := by
  have hgs : glyphs .blank [] "echo a >> f".toList = .ok _ := rfl
  have hlaw := segment_redirections hgs rfl (by decide) (by decide)
  refine ⟨hlaw.1.2 (by simp [OneMode]), ?_⟩
  exact (hlaw.2 plainWorld (fun _ _ => return .ok []) .client {} (plainShell root) _ _ _ true _ rfl rfl (by decide)
    (by decide +kernel)).2 (by decide +kernel)

/-- The segment has redirections that are not found. -/
def Misparsed (segment : Str) (words : List Str) (rs : List (Bool × Str)) : Prop :=
  ∃ gs, glyphs .blank [] segment = .ok gs ∧ redirects (tokensOf gs) = some (words, rs) ∧ ¬ParsesTo segment words rs

theorem misparsed_of_eq {segment clean : Str} {target : Option Str} {append : Bool} {words : List Str}
    {rs : List (Bool × Str)} {gs : List (List Glyph)} (hparse : parseRedirections segment = .ok (clean, target, append))
    (hgs : glyphs .blank [] segment = .ok gs) (hrs : redirects (tokensOf gs) = some (words, rs))
    (h : Shlex.split clean ≠ .ok words ∨ target ≠ rs.getLast?.map Prod.snd ∨ rs.getLast?.map Prod.fst = some !append) :
    Misparsed segment words rs := by
  refine ⟨gs, hgs, hrs, ?_⟩
  rintro ⟨clean', target', append', heq, hsplit, htarget, hmode⟩
  rw [hparse] at heq
  cases heq
  rcases h with h | h | h
  · exact h hsplit
  · exact h htarget
  · obtain ⟨r, hr, hneg⟩ := Option.map_eq_some_iff.1 h
    have hsame := hmode r hr
    rw [hneg] at hsame
    cases append <;> cases hsame

/-- A mode that is not taken back, an operator that is attached, and one that is quoted. -/
theorem misparsed_modes :
    Misparsed "echo a >> f > g".toList ["echo".toList, "a".toList] [(true, "f".toList), (false, "g".toList)] ∧
      Misparsed "echo a>f".toList ["echo".toList, "a".toList] [(false, "f".toList)] ∧
      Misparsed "echo '>' a".toList ["echo".toList, ">".toList, "a".toList] [] :=
  ⟨misparsed_of_eq rfl rfl rfl (by decide), misparsed_of_eq rfl rfl rfl (by decide),
    misparsed_of_eq rfl rfl rfl (by decide)⟩

end Cyanide
