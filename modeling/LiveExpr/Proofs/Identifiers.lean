import LiveExpr.Identifier

/-!
The grammar of identifiers. A text is read as an identifier if it consists of a sign, a tag, a
kind and the numeral of an index, with dashes in between. Neither the tag nor the numeral has a
dash of its own, so the first dash and the last one tell the parts from each other whatever the
kind is. Each index is written in one way only, although it may be read from other numerals too,
with a plus or with zeros in front.
-/
namespace LiveExpr

namespace Number

variable {cs : List Char} {n : UInt32}

/-- An optional plus and one or more decimal digits, whose value is the index. -/
def Indicates (cs : List Char) (n : UInt32) : Prop :=
  ∃ digits, (cs = digits ∨ cs = '+' :: digits) ∧ digits ≠ [] ∧
    (∀ c ∈ digits, isDigit c = true) ∧ digitsValue digits = n.toNat

theorem Indicates.no_dash (h : Indicates cs n) : '-' ∉ cs := by
  obtain ⟨digits, hcs, -, hdigits, -⟩ := h
  have hdash : '-' ∉ digits := fun hmem => absurd (hdigits _ hmem) (by decide)
  rcases hcs with rfl | rfl
  · exact hdash
  · simpa using hdash

theorem unsigned_cases (cs : List Char) : cs = unsigned cs ∨ cs = '+' :: unsigned cs := by
  unfold unsigned
  split
  · exact Or.inr rfl
  · exact Or.inl rfl

/-- A digit is no sign. -/
theorem unsigned_of_digits {digits : List Char} (h : ∀ c ∈ digits, isDigit c = true) :
    unsigned digits = digits := by
  unfold unsigned
  split
  · exact absurd (h _ List.mem_cons_self) (by decide)
  · rfl

theorem readIndex?_eq_some_iff : readIndex? cs = some n ↔ Indicates cs n := by
  have hread : readIndex? cs = some n ↔ unsigned cs ≠ [] ∧
      (∀ c ∈ unsigned cs, isDigit c = true) ∧ digitsValue (unsigned cs) = n.toNat := by
    have hvalue (ds : List Char) :
        (valueBelow? (twoTo 32) 0 ds).map Nat.toUInt32 = some n ↔ digitsValue ds = n.toNat := by
      rw [valueBelow?_eq]
      show Option.map _ (if digitsValue ds < 2 ^ 32 then some (digitsValue ds) else none) = _ ↔ _
      constructor
      · intro h
        obtain ⟨v, hv, rfl⟩ := Option.map_eq_some_iff.mp h
        obtain ⟨hlt, hv⟩ := Option.ite_none_right_eq_some.mp hv
        rw [← Option.some_inj.mp hv]
        exact (UInt32.toNat_ofNat_of_lt' hlt).symm
      · intro h
        rw [h, if_pos n.toNat_lt]
        exact congrArg some UInt32.ofNat_toNat
    unfold readIndex?
    dsimp only
    rw [Option.ite_none_left_eq_some, hvalue]
    simp [and_assoc]
  rw [hread]
  constructor
  · rintro ⟨hne, hdigits, hvalue⟩
    exact ⟨unsigned cs, unsigned_cases cs, hne, hdigits, hvalue⟩
  · rintro ⟨digits, rfl | rfl, hne, hdigits, hvalue⟩
    · rw [unsigned_of_digits hdigits]
      exact ⟨hne, hdigits, hvalue⟩
    · exact ⟨hne, hdigits, hvalue⟩

/-- The numeral that is written for an index. -/
theorem indicates_decimalText (n : UInt32) : Indicates (decimalText n.toNat) n :=
  ⟨_, Or.inl rfl, Nat.toDigits_ne_nil,
    fun _ hc => Nat.isDigit_of_mem_toDigits (by decide) (by decide) hc,
    Nat.ofDigitChars_toDigits (by decide) (by decide)⟩

end Number

namespace Identifier

variable {s t : String} {id : Identifier}

/-- What an identifier has to be like to be told from its text: there is a tag, which has no dash,
and there is a kind. -/
structure WellFormed (id : Identifier) : Prop where
  tag : id.tag ≠ ""
  dashless : '-' ∉ id.tag.toList
  kind : id.kind ≠ ""

/-- The characters of the identifier, its index being given by the numeral. -/
def spell (id : Identifier) (numeral : List Char) : List Char :=
  '@' :: (id.tag.toList ++ '-' :: (id.kind.toList ++ '-' :: numeral))

theorem fields?_eq_some_iff {body tag kind numeral : List Char} :
    fields? body = some (tag, kind, numeral) ↔
      body = tag ++ '-' :: (kind ++ '-' :: numeral) ∧ '-' ∉ tag ∧ '-' ∉ numeral ∧
        tag ≠ [] ∧ kind ≠ [] := by
  constructor
  · intro h
    obtain ⟨⟨tag', rest⟩, hfirst, h⟩ := Option.bind_eq_some_iff.mp h
    obtain ⟨⟨kind', numeral'⟩, hlast, h⟩ := Option.bind_eq_some_iff.mp h
    obtain ⟨hne, hsame⟩ := Option.ite_none_left_eq_some.mp h
    cases hsame
    obtain ⟨rfl, htag⟩ := Text.splitFirst?_eq_some_iff.mp hfirst
    obtain ⟨rfl, hnumeral⟩ := Text.splitLast?_eq_some_iff.mp hlast
    exact ⟨rfl, htag, hnumeral, by simpa using hne⟩
  · rintro ⟨rfl, htag, hnumeral, hne⟩
    have hfirst : Text.splitFirst? '-' (tag ++ '-' :: (kind ++ '-' :: numeral)) =
        some (tag, kind ++ '-' :: numeral) := Text.splitFirst?_eq_some_iff.mpr ⟨rfl, htag⟩
    have hlast : Text.splitLast? '-' (kind ++ '-' :: numeral) = some (kind, numeral) :=
      Text.splitLast?_eq_some_iff.mpr ⟨rfl, hnumeral⟩
    unfold fields?
    rw [hfirst, Option.bind_eq_bind, Option.bind_some]
    dsimp only
    rw [hlast, Option.bind_some]
    simpa using hne

theorem parse_eq_ok_iff :
    parse s = .ok id ↔
      id.WellFormed ∧ ∃ numeral, Number.Indicates numeral id.index ∧
        s.toList = id.spell numeral := by
  constructor
  · intro h
    unfold parse at h
    split at h
    · rename_i body hs
      split at h
      · cases h
      · rename_i tag kind numeral hfields
        split at h
        · rename_i index hindex
          cases h
          obtain ⟨rfl, htag, -, htagne, hkindne⟩ := fields?_eq_some_iff.mp hfields
          refine ⟨⟨?_, ?_, ?_⟩, numeral, Number.readIndex?_eq_some_iff.mp hindex, ?_⟩
          · simpa using htagne
          · simpa using htag
          · simpa using hkindne
          · simpa [spell] using hs
        · cases h
    · cases h
  · rintro ⟨hid, numeral, hnumeral, hs⟩
    have hfields : fields? (id.tag.toList ++ '-' :: (id.kind.toList ++ '-' :: numeral)) =
        some (id.tag.toList, id.kind.toList, numeral) := by
      refine fields?_eq_some_iff.mpr ⟨rfl, hid.dashless, hnumeral.no_dash, ?_, ?_⟩
      · simpa using hid.tag
      · simpa using hid.kind
    have hindex := Number.readIndex?_eq_some_iff.mpr hnumeral
    simp only [parse, hs, spell, hfields, hindex, String.ofList_toList]

theorem toList_render (id : Identifier) :
    id.render.toList = id.spell (Number.decimalText id.index.toNat) := by
  simp [render, chars, spell]

theorem parse_render (h : id.WellFormed) : parse id.render = .ok id :=
  parse_eq_ok_iff.mpr ⟨h, _, Number.indicates_decimalText id.index, id.toList_render⟩

theorem hasTag_iff : hasTag s t = true ↔ ∃ rest, s.toList = '@' :: (t.toList ++ '-' :: rest) := by
  unfold hasTag
  rw [List.isPrefixOf_iff_prefix]
  constructor
  · rintro ⟨rest, hrest⟩
    exact ⟨rest, by simpa using hrest.symm⟩
  · rintro ⟨rest, hrest⟩
    exact ⟨rest, by simpa using hrest.symm⟩

/-- The tag of an identifier and the one that is asked for both end at the first dash. -/
theorem hasTag_of_spell {numeral : List Char} (hs : s.toList = id.spell numeral)
    (hid : '-' ∉ id.tag.toList) (ht : '-' ∉ t.toList) : hasTag s t = true ↔ t = id.tag := by
  rw [hasTag_iff, hs]
  constructor
  · rintro ⟨rest, hrest⟩
    have hbody : id.tag.toList ++ '-' :: (id.kind.toList ++ '-' :: numeral) =
        t.toList ++ '-' :: rest := (List.cons.inj hrest).2
    have hfirst : Text.splitFirst? '-' (t.toList ++ '-' :: rest) = some (t.toList, rest) :=
      Text.splitFirst?_eq_some_iff.mpr ⟨rfl, ht⟩
    have hfirst' : Text.splitFirst? '-' (t.toList ++ '-' :: rest) =
        some (id.tag.toList, id.kind.toList ++ '-' :: numeral) :=
      Text.splitFirst?_eq_some_iff.mpr ⟨hbody.symm, hid⟩
    have hsame := Option.some.inj (hfirst.symm.trans hfirst')
    exact String.toList_inj.mp (Prod.mk.inj hsame).1
  · rintro rfl
    exact ⟨_, rfl⟩

/-- A text is read as an identifier exactly if it is spelled in the one way that there is, but for
the numeral of the index. What is written is read back unless tag or kind is missing or the tag has
a dash. Hence no two identifiers that are read back are written alike, and none of them has another
tag than its own. -/
theorem parse_accepts_grammar :
    (∀ (s : String) (id : Identifier), parse s = .ok id ↔ id.WellFormed ∧ ∃ numeral,
      Number.Indicates numeral id.index ∧ '-' ∉ numeral ∧ s.toList = id.spell numeral) ∧
    (∀ id : Identifier, parse id.render = .ok id ↔ id.WellFormed) ∧
    (∀ id id' : Identifier, id.WellFormed → id'.WellFormed → id.render = id'.render → id = id') ∧
    ∀ (id : Identifier) (t : String), id.WellFormed → '-' ∉ t.toList →
      (hasTag id.render t = true ↔ t = id.tag) := by
  refine ⟨fun s id => ?_, fun id => ⟨fun h => (parse_eq_ok_iff.mp h).1, parse_render⟩,
    fun id id' h h' hsame => ?_, fun id t h ht => hasTag_of_spell id.toList_render h.dashless ht⟩
  · rw [parse_eq_ok_iff]
    constructor
    · rintro ⟨hid, numeral, hnumeral, hs⟩
      exact ⟨hid, numeral, hnumeral, hnumeral.no_dash, hs⟩
    · rintro ⟨hid, numeral, hnumeral, -, hs⟩
      exact ⟨hid, numeral, hnumeral, hs⟩
  · have hparse := parse_render h
    rw [hsame, parse_render h'] at hparse
    exact (Except.ok.inj hparse).symm

/-- An item of a tray: its kind has a dash, and a numeral with a plus and a zero is read, too. -/
theorem parse_accepts_grammar_dashed :
    let id : Identifier := ⟨"tray", "status-item", 12⟩
    parse "@tray-status-item-+012" = .ok id ∧ id.render = "@tray-status-item-12" ∧
      parse "@tray-status-item-12" = .ok id ∧
      (∀ id' : Identifier, id'.WellFormed → id'.render = "@tray-status-item-12" → id' = id) ∧
      hasTag "@tray-status-item-12" "tray" = true ∧
      hasTag "@tray-status-item-12" "tray-status" = true ∧
      hasTag "@tray-status-item-12" "status" = false := by
  intro id
  obtain ⟨hgrammar, hback, hinjective, htag⟩ := parse_accepts_grammar
  have hid : id.WellFormed := ⟨by decide, by decide, by decide⟩
  have hrender : id.render = "@tray-status-item-12" := by decide
  have hnumeral : Number.Indicates "+012".toList id.index :=
    ⟨"012".toList, Or.inr rfl, by decide, by simp [Number.isDigit], by decide⟩
  refine ⟨(hgrammar _ _).mpr ⟨hid, _, hnumeral, hnumeral.no_dash, by decide⟩, hrender, ?_,
    fun id' h' hsame => ?_, ?_, ?_, ?_⟩
  · rw [← hrender]
    exact (hback id).mpr hid
  · exact hinjective id' id h' hid (hsame.trans hrender.symm)
  · rw [← hrender]
    exact (htag id "tray" hid (by decide)).mpr rfl
  · decide
  · rw [← hrender]
    exact eq_false_of_ne_true fun h => absurd ((htag id "status" hid (by decide)).mp h) (by decide)

end Identifier

end LiveExpr
