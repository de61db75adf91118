import StableOrdinals.Proofs.CommandLine.Registry
import StableOrdinals.Proofs.Ordinal.Entered
import StableOrdinals.Proofs.Store.Saving

/-!
# Ordinals in arguments

The arguments of a command are joined by spaces before ordinals are read from them. Since a space is
a separator, the words of the joined text are the words of the arguments one after the other
(`words_joinWords`), whatever separators the arguments hold themselves. Empty arguments have no
words, so that it does not matter that those in front leave no space behind.

Hence ordinals are read argument by argument, and a command takes the same set from any two lists of
arguments that give the same ordinals: `ordinals_spread_over_arguments`.
-/

namespace StableOrdinals

namespace Text

def addWord (joined word : Text) : Text := if joined = [] then word else joined ++ " " ++ word

theorem foldl_addWord {joined : Text} (h : joined ≠ []) (ws : List Text) :
    ws.foldl addWord joined = join " " (joined :: ws) := by
  induction ws generalizing joined with
  | nil => exact (List.intercalate_singleton).symm
  | cons word ws ih =>
    have hnext : joined ++ ofString " " ++ word ≠ [] := by simp [h]
    rw [List.foldl_cons, addWord, if_neg h, ih hnext]
    cases ws with
    | nil => simp [join]
    | cons next ws => simp only [join, List.intercalate_cons_cons, List.append_assoc]

/-- By induction on the words, of which the first that is not empty starts the text. -/
theorem joinWords_eq_foldl (ws : List Text) : joinWords ws = ws.foldl addWord [] := by
  induction ws with
  | nil => rfl
  | cons word ws ih =>
    rw [List.foldl_cons, addWord, if_pos rfl, joinWords]
    by_cases hword : word = []
    · subst hword
      exact ih
    · rw [List.dropWhile_cons_of_neg (by simpa using hword), foldl_addWord hword]

theorem words_joinWords {sep : Byte → Bool} (hspace : sep ' ' = true) (ws : List Text) :
    words sep (joinWords ws) = ws.flatMap (words sep) := by
  have hblank : (ws.takeWhile (·.isEmpty)).flatMap (words sep) = [] := by
    rw [List.flatMap_eq_nil_iff]
    intro word hword
    rw [List.isEmpty_iff.1 (List.mem_takeWhile_imp hword)]
    rfl
  have hne : ofString " " ≠ [] := List.cons_ne_nil _ _
  have hglue : ∀ c ∈ ofString " ", sep c = true := List.forall_mem_singleton.2 hspace
  have hcut : ws.takeWhile (·.isEmpty) ++ ws.dropWhile (·.isEmpty) = ws :=
    List.takeWhile_append_dropWhile
  rw [joinWords, words_join hne hglue]
  conv_rhs => rw [← hcut, List.flatMap_append, hblank, List.nil_append]

theorem mapM_flatMap {α β γ : Type} (f : α → List β) (g : β → Option γ) (as : List α) :
    (as.flatMap f).mapM g = (as.mapM fun a => (f a).mapM g).map List.flatten := by
  induction as with
  | nil => rfl
  | cons a as ih =>
    rw [List.flatMap_cons, List.mapM_append, ih, List.mapM_cons]
    cases (f a).mapM g with
    | none => rfl
    | some cs => cases as.mapM fun a => (f a).mapM g <;> rfl

theorem enteredOrdinals?_joinWords (ws : List Text) :
    enteredOrdinals? (joinWords ws) = (ws.mapM enteredOrdinals?).map List.flatten := by
  rw [enteredOrdinals?, words_joinWords rfl, mapM_flatMap]
  rfl

theorem mem_flatten_iff_of_mapM {α β : Type} {f : α → Option (List β)} {as : List α}
    {lists : List (List β)} (h : as.mapM f = some lists) (b : β) :
    b ∈ lists.flatten ↔ ∃ a ∈ as, ∃ bs, f a = some bs ∧ b ∈ bs := by
  induction mapM_eq_some_iff_forall₂.1 h with
  | nil => simp
  | @cons a bs as lists hbs hrest ih =>
    have hfirst : b ∈ bs ↔ ∃ bs', f a = some bs' ∧ b ∈ bs' := by
      rw [hbs]
      simp
    rw [List.flatten_cons, List.mem_append, List.exists_mem_cons_iff, hfirst,
      ih (mapM_eq_some_iff_forall₂.2 hrest)]

end Text

namespace CommandLine.Arguments

open Text

def Readable (arguments : List Text) : Prop :=
  ∀ argument ∈ arguments, enteredOrdinals? argument ≠ none

def Names (arguments : List Text) (o : Ordinal) : Prop :=
  ∃ argument ∈ arguments, ∃ given, enteredOrdinals? argument = some given ∧ o ∈ given

/-- The same ordinals, in whichever arguments and in whatever order they stand. -/
structure SameOrdinals (arguments others : List Text) : Prop where
  readable : Readable arguments ↔ Readable others
  names : ∀ o, Names arguments o ↔ Names others o

variable {arguments : List Text} {slots : OrdinalSet}

theorem readable_iff : Readable arguments ↔
    ∃ given, enteredOrdinals? (joinWords arguments) = some given := by
  rw [← Option.ne_none_iff_exists', enteredOrdinals?_joinWords, Ne, Option.map_eq_none_iff,
    mapM_eq_none_iff]
  exact ⟨fun h ⟨argument, hmem, hnone⟩ => h argument hmem hnone,
    fun h argument hmem hnone => h ⟨argument, hmem, hnone⟩⟩

theorem mem_iff_names {given : List Ordinal}
    (h : enteredOrdinals? (joinWords arguments) = some given) (o : Ordinal) :
    o ∈ given ↔ Names arguments o := by
  rw [enteredOrdinals?_joinWords, Option.map_eq_some_iff] at h
  obtain ⟨lists, hlists, rfl⟩ := h
  exact mem_flatten_iff_of_mapM hlists o

theorem ordinals_eq_ok_iff_exists : ordinals arguments = .ok slots ↔
    ∃ given, enteredOrdinals? (joinWords arguments) = some given ∧ given ≠ [] ∧
      (∀ o ∈ given, 0 ≤ o.toInt) ∧ OrdinalSet.ofList given = slots := by
  have hoption : ordinals arguments = .ok slots ↔ Registry.enteredSlots? arguments = some slots := by
    rw [← toOption_ordinals]
    constructor
    · intro h
      rw [h]
      rfl
    · exact eq_ok_of_toOption
  rw [hoption, Registry.enteredSlots?]
  simp only [Option.map_eq_some_iff, Option.filter_eq_some_iff, Bool.and_eq_true, Bool.not_eq_true',
    List.isEmpty_eq_false_iff, List.all_eq_true, decide_eq_true_eq, and_assoc]

theorem ordinals_eq_ok_iff : ordinals arguments = .ok slots ↔
    Readable arguments ∧ (∃ o, Names arguments o) ∧ (∀ o, Names arguments o → 0 ≤ o.toInt) ∧
      ∀ o, o ∈ slots ↔ Names arguments o := by
  rw [ordinals_eq_ok_iff_exists, readable_iff]
  constructor
  · rintro ⟨given, hread, hne, hnonneg, rfl⟩
    have hnames := mem_iff_names hread
    refine ⟨⟨given, hread⟩, ?_, ?_, ?_⟩
    · obtain ⟨o, ho⟩ := List.exists_mem_of_ne_nil given hne
      exact ⟨o, (hnames o).1 ho⟩
    · exact fun o ho => hnonneg o ((hnames o).2 ho)
    · intro o
      rw [OrdinalSet.mem_ofList, hnames]
  · rintro ⟨⟨given, hread⟩, ⟨o, ho⟩, hnonneg, hslots⟩
    have hnames := mem_iff_names hread
    refine ⟨given, hread, List.ne_nil_of_mem ((hnames o).2 ho), ?_, ?_⟩
    · exact fun o ho => hnonneg o ((hnames o).1 ho)
    · apply Std.ExtTreeSet.ext_mem
      intro o
      rw [OrdinalSet.mem_ofList, hnames, hslots]

theorem SameOrdinals.toOption_eq {others : List Text} (h : SameOrdinals arguments others) :
    (ordinals arguments).toOption = (ordinals others).toOption := by
  have hiff (slots : OrdinalSet) : ordinals arguments = .ok slots ↔ ordinals others = .ok slots := by
    simp only [ordinals_eq_ok_iff, h.readable, h.names]
  cases hothers : ordinals others with
  | ok slots => rw [(hiff slots).2 hothers]
  | error failure =>
    cases harguments : ordinals arguments with
    | error failure => rfl
    | ok slots =>
      rw [(hiff slots).1 harguments] at hothers
      cases hothers

/-- Words are joined one after the other, from any word on, and what is read from the joined text is
what is read from the words. A command takes a set from its arguments if all of them can be read, if
they name ordinals, and none that is negative; it is the set of the ordinals that they name. So it
takes the same set, or none, from all arguments with the same ordinals. -/
theorem ordinals_spread_over_arguments (ws : List Text) (start : ℕ) :
    joinWords (ws.drop start) = (ws.drop start).foldl addWord [] ∧
      enteredOrdinals? (joinWords (ws.drop start)) =
        ((ws.drop start).mapM enteredOrdinals?).map List.flatten ∧
      (enteredOrdinals? (joinWords (ws.drop start)) = none ↔
        ∃ word ∈ ws.drop start, enteredOrdinals? word = none) ∧
      (∀ slots, ordinals (ws.drop start) = .ok slots ↔
        Readable (ws.drop start) ∧ (∃ o, Names (ws.drop start) o) ∧
          (∀ o, Names (ws.drop start) o → 0 ≤ o.toInt) ∧
          ∀ o, o ∈ slots ↔ Names (ws.drop start) o) ∧
      ∀ others, SameOrdinals (ws.drop start) others →
        (ordinals (ws.drop start)).toOption = (ordinals others).toOption := by
  refine ⟨joinWords_eq_foldl _, enteredOrdinals?_joinWords _, ?_, ?_, ?_⟩
  · rw [enteredOrdinals?_joinWords, Option.map_eq_none_iff, mapM_eq_none_iff]
  · exact fun slots => ordinals_eq_ok_iff
  · exact fun others h => h.toOption_eq

/-- An empty argument, a separator at the end of an argument and a repeated ordinal make no
difference. -/
theorem ordinals_spread_over_arguments_swapped :
    let ws : List Text := ["web", "2,", "", "4\t2"]
    let others : List Text := ["4 2"]
    SameOrdinals (ws.drop 1) others ∧
      (ordinals (ws.drop 1)).toOption = (ordinals others).toOption := by
  intro ws others
  have hgiven : enteredOrdinals? (joinWords (ws.drop 1)) = some [2, 4, 2] := by decide
  have hothers : enteredOrdinals? (joinWords others) = some [4, 2] := by decide
  have hsame : SameOrdinals (ws.drop 1) others := by
    constructor
    · exact iff_of_true (readable_iff.2 ⟨_, hgiven⟩) (readable_iff.2 ⟨_, hothers⟩)
    · intro o
      rw [← mem_iff_names hgiven, ← mem_iff_names hothers]
      simp [or_comm]
  exact ⟨hsame, (ordinals_spread_over_arguments ws 1).2.2.2.2 others hsame⟩

end CommandLine.Arguments

end StableOrdinals
