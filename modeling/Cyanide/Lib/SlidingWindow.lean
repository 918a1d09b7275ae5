import Mathlib.Algebra.Order.Group.Defs
import Mathlib.Algebra.Order.Sub.Defs
import Mathlib.Algebra.Order.Group.Unbundled.Basic
import Mathlib.Data.List.Basic

/-!
# Rate limits with a sliding window

A limiter for one client.  It keeps the times at which the client passed, forgets those that left the window, and bans
the client for a while when as many as allowed are still there.  `countP_passed_le` bounds what passes in any window,
and `pairwise_banned` says that a ban holds to its end.  Both are about times in order.
-/

namespace SlidingWindow

structure Limits (α : Type*) where
  max : ℕ
  window : α
  banFor : α

structure Limiter (α : Type*) where
  /-- The end of the ban. -/
  ban : Option α
  history : List α

inductive Decision where
  | passed
  | exceeded
  | banned
  deriving DecidableEq

variable {α : Type*} [AddCommGroup α] [LinearOrder α]

section Check

variable (l : Limits α)

def recent (history : List α) (now : α) : List α := history.filter fun t => now - t < l.window

/-- The decision when no ban is in force. -/
def attempt (history : List α) (now : α) : Decision × Limiter α :=
  if l.max ≤ (recent l history now).length then (.exceeded, ⟨some (now + l.banFor), recent l history now⟩)
  else (.passed, ⟨none, recent l history now ++ [now]⟩)

def check (s : Limiter α) (now : α) : Decision × Limiter α :=
  match s.ban with
  | some expiry => if now < expiry then (.banned, s) else attempt l s.history now
  | none => attempt l s.history now

/-- The decisions at the times of a list. -/
def decisions (s : Limiter α) : List α → List (α × Decision)
  | [] => []
  | now :: times => (now, (check l s now).1) :: decisions (check l s now).2 times

end Check

/-! ### What a step can do -/

section Steps

variable {l : Limits α} {s : Limiter α} {now : α}

theorem attempt_cases (l : Limits α) (history : List α) (now : α) :
    (attempt l history now).1 = .exceeded ∧
        (attempt l history now).2 = ⟨some (now + l.banFor), recent l history now⟩ ∨
      (attempt l history now).1 = .passed ∧ (recent l history now).length < l.max ∧
        (attempt l history now).2 = ⟨none, recent l history now ++ [now]⟩ := by
  unfold attempt
  split
  · exact .inl ⟨rfl, rfl⟩
  · exact .inr ⟨rfl, by omega, rfl⟩

theorem check_of_ban {expiry : α} (h : s.ban = some expiry) (hlt : now < expiry) : check l s now = (.banned, s) := by
  unfold check
  rw [h]
  exact if_pos hlt

theorem check_cases (l : Limits α) (s : Limiter α) (now : α) :
    check l s now = (.banned, s) ∨ check l s now = attempt l s.history now := by
  unfold check
  split
  · split
    · exact .inl rfl
    · exact .inr rfl
  · exact .inr rfl

/-- A client that exceeds the rate is banned from then on. -/
theorem ban_of_exceeded (h : (check l s now).1 = .exceeded) : (check l s now).2.ban = some (now + l.banFor) := by
  rcases check_cases l s now with hc | hc
  · rw [hc] at h
    cases h
  · rw [hc] at h ⊢
    rcases attempt_cases l s.history now with ⟨-, he⟩ | ⟨hp, -⟩
    · rw [he]
    · rw [hp] at h
      cases h

end Steps

section Window

variable [IsOrderedAddMonoid α] {l : Limits α}

/-- What is in the window of a later time is still there. -/
private theorem countP_recent (history : List α) {now later : α} (h : now ≤ later) :
    (recent l history now).countP (fun t => later - t < l.window) =
      history.countP fun t => later - t < l.window := by
  unfold recent
  rw [List.countP_filter]
  refine List.countP_congr fun t _ => ?_
  have hmono : now - t ≤ later - t := sub_le_sub_right h t
  simp only [Bool.and_eq_true, decide_eq_true_eq, and_iff_left_iff_imp]
  exact fun hlt => hmono.trans_lt hlt

/-- What passed in front of the times `times` is known to the limiter where it matters: at each of these times the
history has as much in its window. -/
private def Remembers (l : Limits α) (s : Limiter α) (before times : List α) : Prop :=
  ∀ u ∈ times, before.countP (fun t => u - t < l.window) ≤ s.history.countP fun t => u - t < l.window

private theorem countP_passed_add_le {W : α → Prop} [DecidablePred W] (hW : ∀ x y, W x → W y → y - x < l.window)
    {times : List α} (hsorted : times.Pairwise (· ≤ ·)) {s : Limiter α} {before : List α}
    (hmem : Remembers l s before times) (hle : before.countP W ≤ l.max) :
    before.countP W + (decisions l s times).countP (fun d => d.2 = .passed ∧ W d.1) ≤ l.max := by
  induction times generalizing s before with
  | nil => exact hle
  | cons now times ih =>
    obtain ⟨hnow, hrest⟩ := List.pairwise_cons.1 hsorted
    have hlater : Remembers l s before times := fun u hu => hmem u (List.mem_cons_of_mem _ hu)
    rw [decisions, List.countP_cons]
    rcases check_cases l s now with hc | hc
    · rw [hc]
      simpa using ih hrest hlater hle
    rw [hc]
    rcases attempt_cases l s.history now with ⟨hd, hs⟩ | ⟨hd, hroom, hs⟩
    · rw [hd, hs]
      have hpruned : Remembers l ⟨some (now + l.banFor), recent l s.history now⟩ before times := by
        intro u hu
        rw [countP_recent s.history (hnow u hu)]
        exact hlater u hu
      simpa using ih hrest hpruned hle
    · rw [hd, hs]
      have hgrown : Remembers l ⟨none, recent l s.history now ++ [now]⟩ (before ++ [now]) times := by
        intro u hu
        rw [List.countP_append, List.countP_append, countP_recent s.history (hnow u hu)]
        exact Nat.add_le_add_right (hlater u hu) _
      have hcount : (before ++ [now]).countP W ≤ l.max := by
        rw [List.countP_append, List.countP_singleton]
        by_cases hw : W now
        · -- the times of the window that passed before are all in the history
          have hin : before.countP W ≤ before.countP fun t => now - t < l.window :=
            List.countP_mono_left fun t _ ht => by simpa using hW t now (by simpa using ht) hw
          have hhist := hmem now (by simp)
          have hlen : s.history.countP (fun t => now - t < l.window) = (recent l s.history now).length :=
            List.countP_eq_length_filter
          simp only [hw, decide_true, if_true]
          omega
        · simpa [hw] using hle
      have hsum := ih hrest hgrown hcount
      rw [List.countP_append, List.countP_singleton] at hsum
      by_cases hw : W now
      · simp only [hw, decide_true, if_true, and_self] at hsum ⊢
        omega
      · simp only [hw, decide_false, and_false] at hsum ⊢
        simpa using hsum

/-- No more than allowed pass in a window: a set of times that are all less than the window apart. -/
theorem countP_passed_le {W : α → Prop} [DecidablePred W] (hW : ∀ x y, W x → W y → y - x < l.window)
    {times : List α} (hsorted : times.Pairwise (· ≤ ·)) (s : Limiter α) :
    (decisions l s times).countP (fun d => d.2 = .passed ∧ W d.1) ≤ l.max := by
  have hnone : Remembers l s [] times := fun u _ => Nat.zero_le _
  simpa using countP_passed_add_le hW hsorted hnone (Nat.zero_le _)

end Window

section Bans

variable {l : Limits α} {times : List α}

theorem mem_times_of_decision {s : Limiter α} {d : α × Decision} (h : d ∈ decisions l s times) : d.1 ∈ times := by
  induction times generalizing s with
  | nil => cases h
  | cons now times ih =>
    rw [decisions, List.mem_cons] at h
    rcases h with rfl | h
    · exact List.mem_cons_self
    · exact List.mem_cons_of_mem _ (ih h)

/-- A ban holds to its end. -/
private theorem banned_of_ban (hsorted : times.Pairwise (· ≤ ·)) {s : Limiter α} {expiry : α}
    (hban : s.ban = some expiry) {d : α × Decision} (hd : d ∈ decisions l s times) (hlt : d.1 < expiry) :
    d.2 = .banned := by
  induction times with
  | nil => cases hd
  | cons now times ih =>
    obtain ⟨hnow, hrest⟩ := List.pairwise_cons.1 hsorted
    have hge : now ≤ d.1 := by
      rcases List.mem_cons.1 (mem_times_of_decision hd) with he | hm
      · exact he.ge
      · exact hnow d.1 hm
    have hcheck : check l s now = (.banned, s) := check_of_ban hban (hge.trans_lt hlt)
    rw [decisions, hcheck, List.mem_cons] at hd
    rcases hd with rfl | hd
    · rfl
    · exact ih hrest hd

/-- Whoever exceeds the rate is banned for the time of a ban. -/
theorem pairwise_banned (hsorted : times.Pairwise (· ≤ ·)) (s : Limiter α) :
    (decisions l s times).Pairwise fun d e => d.2 = .exceeded → e.1 < d.1 + l.banFor → e.2 = .banned := by
  induction times generalizing s with
  | nil => exact List.Pairwise.nil
  | cons now times ih =>
    have hrest := (List.pairwise_cons.1 hsorted).2
    refine List.pairwise_cons.2 ⟨fun e he hexceeded hlt => ?_, ih hrest _⟩
    exact banned_of_ban hrest (ban_of_exceeded hexceeded) he hlt

end Bans

end SlidingWindow
