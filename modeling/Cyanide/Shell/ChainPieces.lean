import Cyanide.Shell.Arguments
import Cyanide.Shell.Quoting

/-!
# The pieces of a chain

`_parse_chain` cuts a line into pieces: a command with white space around it, and the operator behind it.  The pieces
make up the line, their operators stand outside of the quotes that the scanner follows, and the nodes are the pieces
whose commands are not blank (`parseChain_partitions`).
-/

namespace Cyanide

open PosixPath PyText

def ChainOp.text : ChainOp → Str
  | .and => "&&".toList
  | .or => "||".toList
  | .seq => ";".toList
  | .background => "&".toList

/-- A command with the white space around it, and the operator that ends it. -/
structure ChainPiece where
  before : Str
  cmd : Str
  after : Str
  operator : Option ChainOp
  isSpace_before : ∀ c ∈ before, isSpace c = true
  isSpace_after : ∀ c ∈ after, isSpace c = true

namespace ChainPiece

/-- The characters in front of the operator. -/
def token (p : ChainPiece) : Str := p.before ++ p.cmd ++ p.after

def text (p : ChainPiece) : Str := p.token ++ (p.operator.map ChainOp.text).getD []

/-- A piece with a blank command is no node. -/
def node? (p : ChainPiece) : Option (CommandNode Str) := if p.cmd = [] then none else some ⟨p.cmd, p.operator⟩

end ChainPiece

/-- The nodes and the pieces of a line: the pieces make up the line, and only the last one may lack an operator. -/
structure Partitions (line : Str) (nodes : List (CommandNode Str)) (pieces : List ChainPiece) : Prop where
  line_eq : pieces.flatMap ChainPiece.text = line
  nodes_eq : pieces.filterMap ChainPiece.node? = nodes
  operator_isSome : ∀ p ∈ pieces.dropLast, p.operator.isSome
  /-- No quote is open at an operator. -/
  operator_outside : ∀ l p r, pieces = l ++ p :: r → p.operator.isSome →
    quoteAfter none (l.flatMap ChainPiece.text ++ p.token) = none
  balanced : ∀ node ∈ nodes.dropLast, quoteAfter none node.cmdLine = none

/-! ### Pieces and quotes -/

theorem quoteAfter_spaces {l : Str} (hl : ∀ c ∈ l, isSpace c = true) (quote : Option Char) :
    quoteAfter quote l = quote := by
  induction l with
  | nil => rfl
  | cons c l ih =>
    have hc : isQuoteChar c = false := isQuoteChar_noSpace c (hl c (by simp))
    have hcons : quoteAfter quote (c :: l) = quoteAfter (if isQuoteChar c then updateQuoteState c quote else quote) l :=
      rfl
    rw [hcons, hc, if_neg Bool.false_ne_true]
    exact ih fun d hd => hl d (List.mem_cons_of_mem c hd)

theorem ChainPiece.quoteAfter_token (p : ChainPiece) (quote : Option Char) :
    quoteAfter quote p.token = quoteAfter quote p.cmd := by
  rw [token, quoteAfter_append, quoteAfter_append, quoteAfter_spaces p.isSpace_before, quoteAfter_spaces p.isSpace_after]

/-- Operators have no quotation marks. -/
theorem quoteAfter_operator (op : Option ChainOp) (quote : Option Char) :
    quoteAfter quote ((op.map ChainOp.text).getD []) = quote := by
  cases op with
  | none => rfl
  | some op => cases op <;> rfl

theorem ChainPiece.quoteAfter_text (p : ChainPiece) (quote : Option Char) :
    quoteAfter quote p.text = quoteAfter quote p.cmd := by
  rw [text, quoteAfter_append, quoteAfter_operator, p.quoteAfter_token]

/-- What the loop makes of its tokens. -/
private def nodeOf (token : Str × Option ChainOp) : Option (CommandNode Str) :=
  if token.1 = [] then none else some ⟨token.1, token.2⟩

/-- The piece of a token and the operator behind it. -/
private theorem exists_piece (token : Str) (op : Option ChainOp) :
    ∃ p : ChainPiece, p.token = token ∧ p.cmd = strip token ∧ p.operator = op := by
  obtain ⟨l, r, htoken, hl, hr⟩ := exists_strip_eq token
  exact ⟨⟨l, strip token, r, op, hl, hr⟩, htoken.symm, rfl, rfl⟩

/-! ### The loop -/

/-- The pieces of the rest of a line, behind the characters of the current token. -/
private structure PiecesFrom (token cs : Str) (tokens : List (Str × Option ChainOp)) (pieces : List ChainPiece) :
    Prop where
  line_eq : pieces.flatMap ChainPiece.text = token ++ cs
  nodes_eq : pieces.filterMap ChainPiece.node? = tokens.filterMap nodeOf
  operator_isSome : ∀ p ∈ pieces.dropLast, p.operator.isSome
  balanced : ∀ p ∈ pieces, p.operator.isSome → quoteAfter none p.cmd = none
  ne_nil : pieces ≠ []

/-- A token that ends at an operator, in front of the pieces of the rest. -/
private theorem PiecesFrom.cons {cs : Str} {tokens : List (Str × Option ChainOp)} {pieces : List ChainPiece}
    (h : PiecesFrom [] cs tokens pieces) {token : Str} (htoken : quoteAfter none token = none) (op : ChainOp) :
    ∃ pieces, PiecesFrom token (op.text ++ cs) ((strip token, some op) :: tokens) pieces := by
  obtain ⟨p, hp, hcmd, hop⟩ := exists_piece token (some op)
  refine ⟨p :: pieces, ⟨?_, ?_, ?_, ?_, List.cons_ne_nil _ _⟩⟩
  · rw [List.flatMap_cons, h.line_eq, ChainPiece.text, hp, hop, Option.map_some, Option.getD_some, List.nil_append,
      List.append_assoc]
  · have hnode : p.node? = nodeOf (strip token, some op) := by
      rw [ChainPiece.node?, nodeOf, hcmd, hop]
    rw [List.filterMap_cons, List.filterMap_cons, hnode, h.nodes_eq]
  · intro q hq
    rw [List.dropLast_cons_of_ne_nil h.ne_nil, List.mem_cons] at hq
    rcases hq with rfl | hq
    · rw [hop]
      rfl
    · exact h.operator_isSome q hq
  · intro q hq hqop
    rcases List.mem_cons.mp hq with rfl | hq
    · rw [← q.quoteAfter_token, hp]
      exact htoken
    · exact h.balanced q hq hqop

private theorem exists_piecesFrom (quote : Option Char) (token cs : Str) (hquote : quoteAfter none token = quote) :
    ∃ pieces, PiecesFrom token cs (parseChainFrom quote token cs) pieces := by
  induction quote, token, cs using parseChainFrom.induct with
  | case1 quote token h =>
    obtain ⟨p, hp, hcmd, hop⟩ := exists_piece token none
    refine ⟨[p], ⟨?_, ?_, by simp, by simp [hop], by simp⟩⟩
    · simp [ChainPiece.text, hp, hop]
    · simp [parseChainFrom, h, ChainPiece.node?, hcmd]
  | case2 quote token h =>
    obtain ⟨p, hp, hcmd, hop⟩ := exists_piece token none
    refine ⟨[p], ⟨?_, ?_, by simp, by simp [hop], by simp⟩⟩
    · simp [ChainPiece.text, hp, hop]
    · simp [parseChainFrom, h, ChainPiece.node?, nodeOf, hcmd, hop]
  | case3 token cs ih =>
    obtain ⟨pieces, h⟩ := ih rfl
    rw [parseChainFrom]
    exact h.cons hquote .and
  | case4 token cs ih =>
    obtain ⟨pieces, h⟩ := ih rfl
    rw [parseChainFrom]
    exact h.cons hquote .or
  | case5 token cs ih =>
    obtain ⟨pieces, h⟩ := ih rfl
    rw [parseChainFrom]
    exact h.cons hquote .seq
  | case6 token cs hamp ih =>
    obtain ⟨pieces, h⟩ := ih rfl
    rw [parseChainFrom.eq_5 _ _ hamp]
    exact h.cons hquote .background
  | case7 quote token c cs h1 h2 h3 h4 ih =>
    have hnext : quoteAfter none (token ++ [c]) = if isQuoteChar c then updateQuoteState c quote else quote := by
      rw [quoteAfter_append, hquote]
      rfl
    obtain ⟨pieces, h⟩ := ih hnext
    rw [parseChainFrom.eq_6 _ _ _ _ h1 h2 h3 h4]
    refine ⟨pieces, ⟨?_, h.nodes_eq, h.operator_isSome, h.balanced, h.ne_nil⟩⟩
    rw [h.line_eq, List.append_assoc]
    rfl

/-! ### The partition -/

/-- Behind pieces whose commands are balanced no quote is open. -/
private theorem quoteAfter_flatMap {pieces : List ChainPiece} (h : ∀ p ∈ pieces, quoteAfter none p.cmd = none) :
    quoteAfter none (pieces.flatMap ChainPiece.text) = none := by
  induction pieces with
  | nil => rfl
  | cons p pieces ih =>
    rw [List.flatMap_cons, quoteAfter_append, p.quoteAfter_text, h p (by simp)]
    exact ih fun q hq => h q (List.mem_cons_of_mem p hq)

/-- The nodes that are not the last come from pieces that are not the last. -/
private theorem mem_dropLast_filterMap {α β : Type} {f : α → Option β} {l : List α} {b : β}
    (h : b ∈ (l.filterMap f).dropLast) : ∃ a ∈ l.dropLast, f a = some b := by
  induction l with
  | nil => cases h
  | cons a l ih =>
    have htail : b ∈ (l.filterMap f).dropLast → ∃ a' ∈ (a :: l).dropLast, f a' = some b := by
      intro hb
      obtain ⟨a', ha', hf⟩ := ih hb
      have hne : l ≠ [] := by
        rintro rfl
        cases ha'
      refine ⟨a', ?_, hf⟩
      rw [List.dropLast_cons_of_ne_nil hne]
      exact List.mem_cons_of_mem a ha'
    rw [List.filterMap_cons] at h
    cases hfa : f a with
    | none =>
      rw [hfa] at h
      exact htail h
    | some b' =>
      rw [hfa] at h
      have hne : l.filterMap f ≠ [] := by
        intro hnil
        simp [hnil] at h
      have hl : l ≠ [] := by
        rintro rfl
        exact hne rfl
      rw [List.dropLast_cons_of_ne_nil hne, List.mem_cons] at h
      rcases h with rfl | h
      · refine ⟨a, ?_, hfa⟩
        rw [List.dropLast_cons_of_ne_nil hl]
        exact List.mem_cons_self
      · exact htail h

/-- The nodes of a line are pieces of it, in order and without overlap: what is outside of the commands and their
operators is white space, or the operator of a blank command; no operator is quoted, and only the last command may have
a quote left open. -/
theorem parseChain_partitions (line : Str) : ∃ pieces, Partitions line (parseChain line) pieces := by
  obtain ⟨pieces, h⟩ := exists_piecesFrom none [] line rfl
  have hnodes : pieces.filterMap ChainPiece.node? = parseChain line := h.nodes_eq
  refine ⟨pieces, ⟨by rw [h.line_eq, List.nil_append], hnodes, h.operator_isSome, ?_, ?_⟩⟩
  · intro l p r hpieces hop
    have hl : ∀ q ∈ l, quoteAfter none q.cmd = none := by
      intro q hq
      have hmem : q ∈ pieces.dropLast := by
        rw [hpieces, List.dropLast_append_of_ne_nil (List.cons_ne_nil _ _)]
        exact List.mem_append_left _ hq
      exact h.balanced q (List.mem_of_mem_dropLast hmem) (h.operator_isSome q hmem)
    rw [quoteAfter_append, quoteAfter_flatMap hl, p.quoteAfter_token]
    exact h.balanced p (by simp [hpieces]) hop
  · intro node hnode
    rw [← hnodes] at hnode
    obtain ⟨p, hp, hfp⟩ := mem_dropLast_filterMap hnode
    have hcmd : p.cmd = node.cmdLine := by
      unfold ChainPiece.node? at hfp
      split_ifs at hfp
      exact congrArg CommandNode.cmdLine (Option.some.inj hfp)
    rw [← hcmd]
    exact h.balanced p (List.mem_of_mem_dropLast hp) (h.operator_isSome p hp)

end Cyanide
