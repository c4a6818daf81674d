import AudioFocus.Channel.Key

/-!
Maps from channels, in the order in which the channels were added. `get?` is the view: each
operation below says what it does to it.
-/
namespace AudioFocus

structure ChannelMap (α : Type) where
  entries : List (ChannelKey × α) := []

namespace ChannelMap

variable {α : Type}

def get? (m : ChannelMap α) (key : ChannelKey) : Option α := m.entries.lookup key

def contains (m : ChannelMap α) (key : ChannelKey) : Bool := (m.get? key).isSome

def size (m : ChannelMap α) : Nat := m.entries.length

def erase (m : ChannelMap α) (key : ChannelKey) : ChannelMap α :=
  ⟨m.entries.filter (·.1 ≠ key)⟩

/-- Adds the channel at the end; an earlier value of it is dropped. -/
def insert (m : ChannelMap α) (key : ChannelKey) (a : α) : ChannelMap α :=
  ⟨(m.erase key).entries ++ [(key, a)]⟩

def modify (m : ChannelMap α) (key : ChannelKey) (f : α → α) : ChannelMap α :=
  ⟨m.entries.map fun e => if e.1 = key then (e.1, f e.2) else e⟩

@[simp] theorem get?_empty (key : ChannelKey) : (⟨[]⟩ : ChannelMap α).get? key = none := rfl

theorem lookup_cons (key other : ChannelKey) (a : α) (entries : List (ChannelKey × α)) :
    ((key, a) :: entries).lookup other =
      if other = key then some a else entries.lookup other := by
  by_cases h : other = key
  · simp [h]
  · simp [List.lookup_cons, h, beq_eq_false_iff_ne.mpr h]

@[simp] theorem get?_erase (m : ChannelMap α) (key other : ChannelKey) :
    (m.erase key).get? other = if other = key then none else m.get? other := by
  obtain ⟨entries⟩ := m
  simp only [erase, get?]
  induction entries with
  | nil => simp
  | cons e entries ih =>
    obtain ⟨k, a⟩ := e
    by_cases hk : k = key
    · subst hk
      simp only [ne_eq, not_true_eq_false, decide_false, Bool.false_eq_true, not_false_eq_true,
        List.filter_cons_of_neg, ih, lookup_cons]
      split <;> rfl
    · rw [List.filter_cons_of_pos (by simpa using hk), lookup_cons, lookup_cons, ih]
      by_cases h : other = k
      · simp [h, hk]
      · simp [h]

@[simp] theorem get?_insert (m : ChannelMap α) (key other : ChannelKey) (a : α) :
    (m.insert key a).get? other = if other = key then some a else m.get? other := by
  have h := m.get?_erase key other
  simp only [insert, get?] at h ⊢
  rw [List.lookup_append, h, lookup_cons]
  by_cases e : other = key <;> simp [e]

@[simp] theorem get?_modify (m : ChannelMap α) (key other : ChannelKey) (f : α → α) :
    (m.modify key f).get? other = if other = key then (m.get? other).map f else m.get? other := by
  obtain ⟨entries⟩ := m
  simp only [modify, get?]
  induction entries with
  | nil => simp
  | cons e entries ih =>
    obtain ⟨k, a⟩ := e
    rw [List.map_cons, lookup_cons]
    by_cases hk : k = key
    · rw [if_pos hk, lookup_cons, ih]
      by_cases h : other = k <;> simp_all
    · rw [if_neg hk, lookup_cons, ih]
      by_cases h : other = k
      · simp [h, hk]
      · simp only [if_neg h]

end ChannelMap
end AudioFocus
