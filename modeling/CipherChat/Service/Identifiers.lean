import CipherChat.Service.E2EE

/-!
What the strings the service builds from identifiers say about them: the ids of stored
messages, and the associated data of the two envelope versions.
-/

namespace Identifiers

open Number

/-- An identifier without the two characters that separate the parts of a composed string. -/
structure Plain (id : String) : Prop where
  bar : '|' ∉ id.toList
  quote : '"' ∉ id.toList

instance (id : String) : Decidable (Plain id) :=
  decidable_of_iff ('|' ∉ id.toList ∧ '"' ∉ id.toList)
    ⟨fun both => ⟨both.1, both.2⟩, fun plain => ⟨plain.bar, plain.quote⟩⟩

theorem split_first {α : Type} {mark : α} {l₁ l₂ m₁ m₂ : List α} (free₁ : mark ∉ l₁)
    (free₂ : mark ∉ l₂) (same : l₁ ++ mark :: m₁ = l₂ ++ mark :: m₂) : l₁ = l₂ ∧ m₁ = m₂ := by
  induction l₁ generalizing l₂ with
  | nil =>
      cases l₂ with
      | nil => exact ⟨rfl, by simpa using same⟩
      | cons b l₂ =>
          simp only [List.nil_append, List.cons_append, List.cons.injEq] at same
          exact absurd same.1 (fun equal => free₂ (by simp [equal]))
  | cons a l₁ ih =>
      cases l₂ with
      | nil =>
          simp only [List.nil_append, List.cons_append, List.cons.injEq] at same
          exact absurd same.1 (fun equal => free₁ (by simp [equal]))
      | cons b l₂ =>
          simp only [List.cons_append, List.cons.injEq] at same
          simp only [List.mem_cons, not_or] at free₁ free₂
          obtain ⟨heads, tails⟩ := ih free₁.2 free₂.2 same.2
          exact ⟨by rw [same.1, heads], tails⟩

theorem split_last {α : Type} {mark : α} {l₁ l₂ m₁ m₂ : List α} (free₁ : mark ∉ m₁)
    (free₂ : mark ∉ m₂) (same : l₁ ++ mark :: m₁ = l₂ ++ mark :: m₂) : l₁ = l₂ ∧ m₁ = m₂ := by
  have reversed : m₁.reverse ++ mark :: l₁.reverse = m₂.reverse ++ mark :: l₂.reverse := by
    simpa using congrArg List.reverse same
  obtain ⟨tails, heads⟩ := split_first (by simpa using free₁) (by simpa using free₂) reversed
  exact ⟨List.reverse_injective heads, List.reverse_injective tails⟩

theorem bar_not_numeric {x : JsNumber} : '|' ∉ (Number.text x).toList := by
  intro member
  rcases text_numeric member with digit | mark
  · exact absurd digit (by decide)
  · exact absurd mark (by decide)

theorem messageKey_inj {s₁ s₂ a₁ a₂ : String} {c₁ c₂ : JsNumber} (plain₁ : Plain a₁)
    (plain₂ : Plain a₂)
    (same : E2EEService.messageKey s₁ a₁ c₁ = E2EEService.messageKey s₂ a₂ c₂) :
    s₁ = s₂ ∧ a₁ = a₂ ∧ Number.text c₁ = Number.text c₂ := by
  have chars := congrArg String.toList same
  have whole : (s₁.toList ++ '|' :: a₁.toList) ++ '|' :: (Number.text c₁).toList =
      (s₂.toList ++ '|' :: a₂.toList) ++ '|' :: (Number.text c₂).toList := by
    simpa [E2EEService.messageKey] using chars
  obtain ⟨front, counters⟩ := split_last bar_not_numeric bar_not_numeric whole
  obtain ⟨sessions, senders⟩ := split_last plain₁.bar plain₂.bar front
  exact ⟨String.toList_injective sessions, String.toList_injective senders,
    String.toList_injective counters⟩

theorem messageId_inj {v₁ v₂ k₁ k₂ : String} (plain₁ : Plain v₁) (plain₂ : Plain v₂)
    (same : E2EEService.messageId v₁ k₁ = E2EEService.messageId v₂ k₂) : v₁ = v₂ ∧ k₁ = k₂ := by
  have chars := congrArg String.toList same
  simp only [E2EEService.messageId, String.toList_append] at chars
  obtain ⟨conversations, keys⟩ := split_first plain₁.bar plain₂.bar
    (show _ ++ '|' :: _ = _ ++ '|' :: _ by simpa using chars)
  exact ⟨String.toList_injective conversations, String.toList_injective keys⟩

end Identifiers
