import ContractAbi.AbiType.Basic
import ContractAbi.Text.Quoted
import Mathlib.Data.List.Infix

/-!
# Texts that end at one place

A text tells a fact of the value it was made from if whoever reads it from the front, whatever stands
behind it, finds the fact and the end. Such texts may be put one behind the other, listed, or left
out, and so a file is read in one way only if its smallest pieces are.
-/

namespace ContractAbi

section Tells

variable {α β γ : Type} {f g : α → List CodePoint} {u : α → β} {v : α → γ}

def Tells (text : α → List CodePoint) (fact : α → β) : Prop :=
  ∀ a b x y, text a ++ x = text b ++ y → fact a = fact b ∧ x = y

theorem Tells.append (first : Tells f u) (second : Tells g v) :
    Tells (fun a => f a ++ g a) (fun a => (u a, v a)) := by
  intro a b x y same
  rw [List.append_assoc, List.append_assoc] at same
  obtain ⟨one, remaining⟩ := first a b _ _ same
  obtain ⟨two, rest⟩ := second a b _ _ remaining
  exact ⟨Prod.ext one two, rest⟩

theorem Tells.before (w : List CodePoint) (tells : Tells f u) : Tells (fun a => w ++ f a) u := by
  intro a b x y same
  rw [List.append_assoc, List.append_assoc] at same
  exact tells a b x y (List.append_cancel_left same)

theorem Tells.behind (tells : Tells f u) (w : List CodePoint) : Tells (fun a => f a ++ w) u := by
  intro a b x y same
  rw [List.append_assoc, List.append_assoc] at same
  obtain ⟨fact, remaining⟩ := tells a b _ _ same
  exact ⟨fact, List.append_cancel_left remaining⟩

theorem Tells.of_eq (tells : Tells f u) (same : ∀ a, g a = f a) : Tells g u := by
  rwa [funext same]

theorem Tells.comp {δ : Type} (tells : Tells f u) (h : δ → α) :
    Tells (fun d => f (h d)) (fun d => u (h d)) :=
  fun a b => tells (h a) (h b)

/-- Neither text begins with the other. -/
def Apart (v w : List CodePoint) : Prop :=
  ¬ v <+: w ∧ ¬ w <+: v

instance (v w : List CodePoint) : Decidable (Apart v w) :=
  inferInstanceAs (Decidable (_ ∧ _))

theorem Apart.append_ne {v w s t : List CodePoint} (apart : Apart v w) (hs : v <+: s) (ht : w <+: t)
    (x y : List CodePoint) : s ++ x ≠ t ++ y := by
  intro same
  have front : v <+: t ++ y := same ▸ hs.trans (List.prefix_append s x)
  rcases List.prefix_or_prefix_of_prefix front (ht.trans (List.prefix_append t y)) with le | ge
  · exact apart.1 le
  · exact apart.2 ge

/-- A list is over where no element begins. -/
theorem Tells.list {stop : List CodePoint} (tells : Tells f u)
    (apart : ∀ a x y, f a ++ x ≠ stop ++ y) :
    Tells (fun as => as.flatMap f ++ stop) (List.map u) := by
  intro as
  induction as with
  | nil =>
    intro bs x y same
    cases bs with
    | nil => exact ⟨rfl, List.append_cancel_left same⟩
    | cons b bs =>
      simp only [List.flatMap_nil, List.nil_append, List.flatMap_cons, List.append_assoc] at same
      exact absurd same.symm (apart b _ _)
  | cons a as ih =>
    intro bs x y same
    cases bs with
    | nil =>
      simp only [List.flatMap_nil, List.nil_append, List.flatMap_cons, List.append_assoc] at same
      exact absurd same (apart a _ _)
    | cons b bs =>
      simp only [List.flatMap_cons, List.append_assoc] at same
      obtain ⟨fact, remaining⟩ := tells a b _ _ same
      obtain ⟨facts, rest⟩ := ih bs x y (by simpa using remaining)
      exact ⟨by rw [List.map_cons, List.map_cons, fact, facts], rest⟩

/-- Whether a text stands in front can be seen if nothing else begins like it. -/
theorem Tells.option {w : List CodePoint} {flag : α → Bool} (tells : Tells f u)
    (apart : ∀ a x y, w ++ x ≠ f a ++ y) :
    Tells (fun a => (if flag a then w else []) ++ f a) (fun a => (flag a, u a)) := by
  intro a b x y same
  dsimp only at same ⊢
  rcases seen : flag a <;> rcases seen' : flag b <;>
    simp only [seen, seen', if_true, if_false, Bool.false_eq_true, List.nil_append,
      List.append_assoc] at same
  · obtain ⟨fact, rest⟩ := tells a b x y same
    exact ⟨by rw [fact], rest⟩
  · exact absurd same.symm (apart a _ _)
  · exact absurd same (apart b _ _)
  · obtain ⟨fact, rest⟩ := tells a b x y (List.append_cancel_left same)
    exact ⟨by rw [fact], rest⟩

end Tells

/-! ### Quoted names and tags -/

namespace Text

def escapeOne (c : CodePoint) : List CodePoint :=
  if c = '\\' ∨ c = '\'' then [.char '\\', c] else [c]

theorem escapeQuoted_eq (cs : List CodePoint) : escapeQuoted cs = cs.flatMap escapeOne := by
  induction cs with
  | nil => rfl
  | cons c cs ih =>
    rw [escapeQuoted, List.flatMap_cons, ih, escapeOne]
    split <;> rfl

theorem tells_escapeOne : Tells escapeOne id := by
  intro c d x y same
  unfold escapeOne at same
  by_cases special : c = '\\' ∨ c = '\'' <;> by_cases special' : d = '\\' ∨ d = '\'' <;>
    simp only [special, special', if_true, if_false, List.cons_append, List.nil_append,
      List.cons.injEq, true_and] at same
  · exact same
  · exact absurd (Or.inl same.1.symm) special'
  · exact absurd (Or.inl same.1) special
  · exact same

theorem tells_quoted {α : Type} (label : α → Text) :
    Tells (fun a => escapeQuoted (label a).toList ++ [.char '\'']) label := by
  have chars : Tells (fun cs => cs.flatMap escapeOne ++ [.char '\'']) (List.map id) := by
    apply tells_escapeOne.list
    intro c x y same
    unfold escapeOne at same
    by_cases special : c = '\\' ∨ c = '\''
    · simp [special] at same
    · simp only [special, if_false, List.cons_append, List.nil_append, List.cons.injEq] at same
      exact special (Or.inr same.1)
  intro a b x y same
  simp only [escapeQuoted_eq] at same
  obtain ⟨facts, rest⟩ := chars _ _ x y same
  exact ⟨Text.toList_inj.mp (by simpa using facts), rest⟩

end Text

theorem AbiType.tells_tag {w : List CodePoint} (blank : w.head? = some (.char ' ')) :
    Tells (fun t : AbiType => t.tag.toList ++ w) id := by
  obtain ⟨w, rfl⟩ : ∃ w', w = .char ' ' :: w' := List.head?_eq_some_iff.mp blank
  have solid (t : AbiType) : t.tag.toList.all (· ≠ CodePoint.char ' ') = true := by
    cases t <;> rfl
  have front (t : AbiType) (x : List CodePoint) :
      (t.tag.toList ++ .char ' ' :: x).takeWhile (· ≠ CodePoint.char ' ') = t.tag.toList := by
    rw [List.takeWhile_append_of_pos (List.all_eq_true.mp (solid t))]
    simp
  intro s t x y same
  rw [List.append_assoc, List.append_assoc, List.cons_append, List.cons_append] at same
  have tags : s.tag.toList = t.tag.toList := by rw [← front s, same, front]
  rw [tags] at same
  exact ⟨tag_inj.mp (Text.toList_inj.mp tags), by simpa using same⟩

end ContractAbi
