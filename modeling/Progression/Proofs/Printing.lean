import Progression.Proofs.Spelling

/-!
Values and their words. Words rebuild the value that they come from, and a printed value spells
its words, whatever its layout. Main statement: a value of text, names and natural numbers comes
back from its text, unless too many containers sit inside each other.
-/

namespace Progression

/-- A list is read back if each of its items is. -/
theorem mapM_map_eq_some {α β : Type} {write : α → β} {read : β → Option α}
    (h : ∀ a, read (write a) = some a) (l : List α) : (l.map write).mapM read = some l := by
  have hread : read ∘ write = fun a => pure (id a) := funext h
  rw [List.mapM_map, hread, List.mapM_pure, List.map_id]
  rfl

namespace Json

/-- All numbers are natural numbers of 64 bits, and at most `level` containers sit inside each
other. -/
inductive IsPlain : Nat → Json → Prop
  | null {level : Nat} : IsPlain level .null
  | bool {level : Nat} (b : Bool) : IsPlain level (.bool b)
  | nat {level n : Nat} : n < UInt64.size → IsPlain level (.nat n)
  | string {level : Nat} (s : String) : IsPlain level (.string s)
  | array {level : Nat} {items : List Json} :
      (∀ j ∈ items, IsPlain level j) → IsPlain (level + 1) (.array items)
  | object {level : Nat} {members : List (String × Json)} :
      (∀ m ∈ members, IsPlain level m.2) → IsPlain (level + 1) (.object members)

mutual

/-- The words of a value. -/
def tokens : Json → List Token
  | .array items => .leftBracket :: (itemTokens items ++ [.rightBracket])
  | .object members => .leftBrace :: (memberTokens members ++ [.rightBrace])
  | .string s => [.text (some s)]
  | value => [.scalar value]

def itemTokens : List Json → List Token
  | [] => []
  | [j] => tokens j
  | j :: js => tokens j ++ .comma :: itemTokens js

def memberTokens : List (String × Json) → List Token
  | [] => []
  | [(key, j)] => .text (some key) :: .colon :: tokens j
  | (key, j) :: ms =>
    .text (some key) :: .colon :: (tokens j ++ .comma :: memberTokens ms)

end

theorem itemTokens_cons (j j' : Json) (js : List Json) :
    itemTokens (j :: j' :: js) = tokens j ++ .comma :: itemTokens (j' :: js) := by
  rw [itemTokens]
  simp

theorem memberTokens_cons (m m' : String × Json) (ms : List (String × Json)) :
    memberTokens (m :: m' :: ms) =
      .text (some m.1) :: .colon :: (tokens m.2 ++ .comma :: memberTokens (m' :: ms)) := by
  rw [memberTokens]
  simp

/-! ### From words to values -/

namespace Draft

variable {t : Token} {ts us : List Token} {draft draft' draft'' : Draft} {cs : List Char}

/-- These words lead from one draft to the other. -/
def Reads (draft : Draft) (ts : List Token) (draft' : Draft) : Prop :=
  ts.foldlM step draft = some draft'

namespace Reads

theorem cons (h : draft.step t = some draft') (hts : draft'.Reads ts draft'') :
    draft.Reads (t :: ts) draft'' := by
  rw [Reads, List.foldlM_cons, h]
  exact hts

theorem single (h : draft.step t = some draft') : draft.Reads [t] draft' :=
  cons h rfl

theorem append (h : draft.Reads ts draft') (hus : draft'.Reads us draft'') :
    draft.Reads (ts ++ us) draft'' := by
  rw [Reads, List.foldlM_append, h]
  exact hus

end Reads

/-- A text is read as its words are. -/
theorem run_of_spells (h : Token.Spells ts cs) (hreads : draft.Reads ts draft') :
    draft.run cs = some draft' := by
  induction h generalizing draft with
  | done =>
      rw [run]
      exact hreads
  | blank hc _ ih =>
      rw [run, if_pos hc]
      exact ih hreads
  | word hc hfirst _ ih =>
      rw [Reads, List.foldlM_cons] at hreads
      obtain ⟨next, hstep, hts⟩ := Option.bind_eq_some_iff.1 hreads
      rw [run, if_neg (Bool.eq_false_iff.1 hc)]
      split
      next hnone => rw [hfirst] at hnone; contradiction
      next hsome =>
        obtain ⟨rfl, rfl⟩ := Prod.mk.inj (Option.some.inj (hfirst.symm.trans hsome))
        rw [hstep]
        exact ih hts

variable {outer : List Frame}

theorem close_of_lt (container : Json) (h : outer.length < maxDepth) :
    close container outer = put container outer := by
  rw [close, if_pos h]

theorem objectOf_map_some (members : List (String × Json)) :
    objectOf (members.reverse.map (Prod.map some id)) = .object members := by
  rw [objectOf, List.map_reverse, List.reverse_reverse, mapM_map_eq_some]
  exact fun _ => rfl

namespace Reads

/-- The first item of a list is read as those after it. -/
theorem firstItem {j : Json} {js : List Json}
    (h : (value (.array [] :: outer)).Reads (itemTokens (j :: js)) draft) :
    (Draft.firstItem outer).Reads (itemTokens (j :: js)) draft := by
  cases js <;> cases j <;> exact h

theorem items {j : Json} {js : List Json}
    (h : ∀ i ∈ j :: js, ∀ outer' : List Frame, outer'.length = outer.length + 1 →
      (value outer').Reads (tokens i) (put i outer')) (seen : List Json) :
    (value (.array seen :: outer)).Reads (itemTokens (j :: js))
      (.afterItem ((j :: js).reverse ++ seen) outer) := by
  induction js generalizing j seen with
  | nil => exact h j List.mem_cons_self (.array seen :: outer) rfl
  | cons j' js ih =>
      have hj := h j List.mem_cons_self (.array seen :: outer) rfl
      have hjs := ih (fun i hi => h i (List.mem_cons_of_mem j hi)) (j :: seen)
      rw [itemTokens_cons, List.reverse_cons, List.append_assoc]
      exact hj.append (.cons rfl hjs)

theorem firstKey {m : String × Json} {ms : List (String × Json)}
    (h : (nextKey [] outer).Reads (memberTokens (m :: ms)) draft) :
    (Draft.firstKey outer).Reads (memberTokens (m :: ms)) draft := by
  cases ms <;> exact h

theorem members {m : String × Json} {ms : List (String × Json)}
    (h : ∀ n ∈ m :: ms, ∀ outer' : List Frame, outer'.length = outer.length + 1 →
      (value outer').Reads (tokens n.2) (put n.2 outer')) (seen : List (Option String × Json)) :
    (nextKey seen outer).Reads (memberTokens (m :: ms))
      (.afterMember ((m :: ms).reverse.map (Prod.map some id) ++ seen) outer) := by
  induction ms generalizing m seen with
  | nil =>
      have hm := h m List.mem_cons_self (.object seen (some m.1) :: outer) rfl
      exact .cons rfl (.cons rfl hm)
  | cons m' ms ih =>
      have hm := h m List.mem_cons_self (.object seen (some m.1) :: outer) rfl
      have hms := ih (fun n hn => h n (List.mem_cons_of_mem m hn)) ((some m.1, m.2) :: seen)
      rw [memberTokens_cons, List.reverse_cons, List.map_append, List.append_assoc]
      exact .cons rfl (.cons rfl (hm.append (.cons rfl hms)))

end Reads

end Draft

/-- The words of a value are read as that value, if there is room for its containers. -/
theorem IsPlain.reads {level : Nat} {j : Json} (h : j.IsPlain level) {outer : List Frame}
    (hlevel : outer.length + level ≤ maxDepth) :
    (Draft.value outer).Reads (tokens j) (Draft.put j outer) := by
  induction h generalizing outer with
  | null => exact .single rfl
  | bool b => exact .single rfl
  | nat _ => exact .single rfl
  | string s => exact .single rfl
  | @array level items _ ih =>
      have hclose : ∀ container, Draft.close container outer = Draft.put container outer :=
        fun container => Draft.close_of_lt container (by omega)
      rw [tokens]
      cases items with
      | nil => exact .cons rfl (.single (congrArg some (hclose _)))
      | cons j js =>
          have hitems : (Draft.value (.array [] :: outer)).Reads (itemTokens (j :: js))
              (.afterItem ((j :: js).reverse ++ []) outer) :=
            Draft.Reads.items (fun i hi outer' houter => ih i hi (by omega)) []
          refine .cons rfl ((Draft.Reads.firstItem hitems).append (.single ?_))
          simp [Draft.step, hclose]
  | @object level members _ ih =>
      have hclose : ∀ container, Draft.close container outer = Draft.put container outer :=
        fun container => Draft.close_of_lt container (by omega)
      rw [tokens]
      cases members with
      | nil => exact .cons rfl (.single (congrArg some (hclose _)))
      | cons m ms =>
          have hmembers : (Draft.nextKey [] outer).Reads (memberTokens (m :: ms))
              (.afterMember ((m :: ms).reverse.map (Prod.map some id) ++ []) outer) :=
            Draft.Reads.members (fun n hn outer' houter => ih n hn (by omega)) []
          refine .cons rfl ((Draft.Reads.firstKey hmembers).append (.single ?_))
          simp [Draft.step, hclose, ← Draft.objectOf_map_some]

/-! ### From values to text -/

namespace Token

variable {ts : List Token} {rest : List Char}

theorem Ends.cons {c : Char} (cs : List Char) (hc : (isNumberChar c || c.isAlpha) = false) :
    Ends (c :: cs) := by
  rintro _ ⟨⟩
  exact Bool.or_eq_false_iff.1 hc

theorem ends_newline (level : Nat) (cs : List Char) : Ends (newline level ++ cs) :=
  .cons _ rfl

/-- Items spell their words, whatever blanks stand before each of them. -/
theorem spells_items (lead : List Char) {print : Json → List Char}
    (printItems : List Json → List Char)
    (hlead : ∀ ts cs, Spells ts cs → Spells ts (lead ++ cs)) (hnil : printItems [] = [])
    (hsingle : ∀ j, printItems [j] = lead ++ print j)
    (hcons : ∀ j j' js, printItems (j :: j' :: js) =
      lead ++ (print j ++ ',' :: printItems (j' :: js))) {items : List Json} (hends : Ends rest)
    (h : ∀ j ∈ items, ∀ ts rest, Ends rest → Spells ts rest →
      Spells (tokens j ++ ts) (print j ++ rest)) (hts : Spells ts rest) :
    Spells (itemTokens items ++ ts) (printItems items ++ rest) := by
  induction items with
  | nil =>
      rw [hnil]
      exact hts
  | cons j js ih =>
      cases js with
      | nil =>
          rw [hsingle, List.append_assoc]
          exact hlead _ _ (h j List.mem_cons_self ts rest hends hts)
      | cons j' js =>
          have hjs := ih fun i hi => h i (List.mem_cons_of_mem j hi)
          have hcomma := hjs.punctuation (c := ',') rfl
          have hj := hlead _ _ (h j List.mem_cons_self _ _ (.cons _ rfl) hcomma)
          simpa [itemTokens_cons, hcons] using hj

/-- Members spell their words, whatever blanks stand before each of them and behind each colon. -/
theorem spells_members (lead gap : List Char) {print : Json → List Char}
    (printMembers : List (String × Json) → List Char)
    (hlead : ∀ ts cs, Spells ts cs → Spells ts (lead ++ cs))
    (hgap : ∀ ts cs, Spells ts cs → Spells ts (gap ++ cs)) (hnil : printMembers [] = [])
    (hsingle : ∀ m, printMembers [m] = lead ++ (quote m.1 ++ ':' :: (gap ++ print m.2)))
    (hcons : ∀ m m' ms, printMembers (m :: m' :: ms) =
      lead ++ (quote m.1 ++ ':' :: (gap ++ (print m.2 ++ ',' :: printMembers (m' :: ms)))))
    {members : List (String × Json)} (hends : Ends rest)
    (h : ∀ m ∈ members, ∀ ts rest, Ends rest → Spells ts rest →
      Spells (tokens m.2 ++ ts) (print m.2 ++ rest)) (hts : Spells ts rest) :
    Spells (memberTokens members ++ ts) (printMembers members ++ rest) := by
  have hmember : ∀ (key : String) {ts cs}, Spells ts cs →
      Spells (.text (some key) :: .colon :: ts) (lead ++ (quote key ++ ':' :: (gap ++ cs))) :=
    fun key ts cs hcs => hlead _ _ (((hgap _ _ hcs).punctuation rfl).quote key)
  induction members with
  | nil =>
      rw [hnil]
      exact hts
  | cons m ms ih =>
      cases ms with
      | nil =>
          have hm := hmember m.1 (h m List.mem_cons_self ts rest hends hts)
          simpa [memberTokens, hsingle] using hm
      | cons m' ms =>
          have hms := ih fun n hn => h n (List.mem_cons_of_mem m hn)
          have hcomma := hms.punctuation (c := ',') rfl
          have hm := hmember m.1 (h m List.mem_cons_self _ _ (.cons _ rfl) hcomma)
          simpa [memberTokens_cons, hcons] using hm

end Token

/-- Printed values spell their words, as long as what follows cannot be part of them. -/
theorem IsPlain.spells {level : Nat} {j : Json} (h : j.IsPlain level) (indent : Nat)
    {ts : List Token} {rest : List Char} (hends : Token.Ends rest) (hts : Token.Spells ts rest) :
    Token.Spells (tokens j ++ ts) (prettyChars indent j ++ rest) := by
  induction h generalizing indent ts rest with
  | null => exact hts.name (Or.inl rfl) rfl rfl hends
  | bool b =>
      cases b
      · exact hts.name (Or.inr (Or.inr rfl)) rfl rfl hends
      · exact hts.name (Or.inr (Or.inl rfl)) rfl rfl hends
  | nat hn => exact hts.nat hn hends
  | string s => exact hts.quote s
  | @array level items _ ih =>
      have hclose : Token.Spells (.rightBracket :: ts) (newline indent ++ ']' :: rest) :=
        (hts.punctuation rfl).newline indent
      have hitems := Token.spells_items (newline (indent + 1)) (prettyItems (indent + 1))
        (fun _ _ => .newline (indent + 1)) rfl (fun _ => rfl) (fun j j' js => by simp [prettyItems])
        (Token.ends_newline indent _) (fun j hj ts rest => ih j hj (indent + 1)) hclose
      cases items with
      | nil => exact (hts.punctuation rfl).punctuation rfl
      | cons j js =>
          have hopen := hitems.punctuation (c := '[') rfl
          simpa only [tokens, prettyChars, List.cons_append, List.append_assoc,
            List.nil_append] using hopen
  | @object level members _ ih =>
      have hclose : Token.Spells (.rightBrace :: ts) (newline indent ++ '}' :: rest) :=
        (hts.punctuation rfl).newline indent
      have hmembers := Token.spells_members (newline (indent + 1)) [' ']
        (prettyMembers (indent + 1)) (fun _ _ => .newline (indent + 1)) (fun _ _ => .blank rfl) rfl
        (fun m => by simp [prettyMembers]) (fun m m' ms => by simp [prettyMembers])
        (Token.ends_newline indent _) (fun m hm ts rest => ih m hm (indent + 1)) hclose
      cases members with
      | nil => exact (hts.punctuation rfl).punctuation rfl
      | cons m ms =>
          have hopen := hmembers.punctuation (c := '{') rfl
          simpa only [tokens, prettyChars, List.cons_append, List.append_assoc,
            List.nil_append] using hopen

/-- The same in one line. -/
theorem IsPlain.spells_compactChars {level : Nat} {j : Json} (h : j.IsPlain level) {ts : List Token}
    {rest : List Char} (hends : Token.Ends rest) (hts : Token.Spells ts rest) :
    Token.Spells (tokens j ++ ts) (compactChars j ++ rest) := by
  induction h generalizing ts rest with
  | null => exact hts.name (Or.inl rfl) rfl rfl hends
  | bool b =>
      cases b
      · exact hts.name (Or.inr (Or.inr rfl)) rfl rfl hends
      · exact hts.name (Or.inr (Or.inl rfl)) rfl rfl hends
  | nat hn => exact hts.nat hn hends
  | string s => exact hts.quote s
  | @array level items _ ih =>
      have hitems := Token.spells_items [] compactItems (fun _ _ => id) rfl (fun _ => rfl)
        (fun j j' js => by simp [compactItems]) (.cons _ rfl) (fun j hj ts rest => ih j hj)
        (hts.punctuation (c := ']') rfl)
      simpa [tokens, compactChars] using hitems.punctuation (c := '[') rfl
  | @object level members _ ih =>
      have hmembers := Token.spells_members [] [] compactMembers (fun _ _ => id) (fun _ _ => id)
        rfl (fun _ => rfl) (fun m m' ms => by simp [compactMembers]) (.cons _ rfl)
        (fun m hm ts rest => ih m hm) (hts.punctuation (c := '}') rfl)
      simpa [tokens, compactChars] using hmembers.punctuation (c := '{') rfl

/-- A text that spells the words of a value is read as that value. -/
theorem parse?_of_spells {j : Json} (h : j.IsPlain maxDepth) {text : String}
    (hspells : Token.Spells (tokens j) text.toList) : parse? text = some j := by
  have hreads : (Draft.value []).Reads (tokens j) (.done j) := h.reads (by simp)
  rw [parse?, Draft.run_of_spells hspells hreads]

theorem IsPlain.spells_pretty {level : Nat} {j : Json} (h : j.IsPlain level) :
    Token.Spells (tokens j) j.pretty.toList := by
  have hspells : Token.Spells (tokens j ++ []) (prettyChars 0 j ++ []) :=
    h.spells 0 (by simp [Token.Ends]) .done
  rwa [List.append_nil, List.append_nil, ← String.toList_ofList (l := prettyChars 0 j)] at hspells

theorem IsPlain.spells_compact {level : Nat} {j : Json} (h : j.IsPlain level) :
    Token.Spells (tokens j) j.compact.toList := by
  have hspells : Token.Spells (tokens j ++ []) (compactChars j ++ []) :=
    h.spells_compactChars (by simp [Token.Ends]) .done
  rwa [List.append_nil, List.append_nil, ← String.toList_ofList (l := compactChars j)] at hspells

/-- What was printed is read back. -/
theorem parse?_pretty {j : Json} (h : j.IsPlain maxDepth) : parse? j.pretty = some j :=
  parse?_of_spells h h.spells_pretty

end Json

end Progression
