import ResourceGraph.Proofs.Yaml.Entry
import ResourceGraph.Yaml.Reading

/-!
# The heading of a document

A document whose text begins with entries, each from the start of a line on (`BeginsWith`), has these
entries first. A key is a plain word; a value is a word in any style, and blanks and a comment may
stand behind it (`WrittenEntry.IsOn`). The events of one entry are read off the queue
(`EventSource.step_key`, `EventSource.step_value`); a document that loads without a fault then has
the scalars of all of them among its first items (`Document.kinds_load`), and a value that is read
from these is a mapping with these entries (`Value.ofText_beginsWith`). What stands below the
heading may be any text that can be read.
-/

set_option autoImplicit false

namespace ResourceGraph.Yaml

open TokenQueue

/-! ## Events -/

namespace EventSource

variable {k : Cursor} {t : Token} {tokens : List Token} {taken : Nat} {indent : Int}
  {outer : List Int} {allowed : Bool} {r : Option Refusal} {next : Expectation}
  {afterwards : List Expectation} {opened : List Mark} {handles : List (Octets × Octets)}

/-- A token that is no key candidate is left as it is. -/
theorem peek_settled :
    (⟨settled k (t :: tokens) taken indent outer allowed r, next, afterwards, opened, handles⟩ :
      EventSource).peek =
      .ok (t, ⟨settled k (t :: tokens) taken indent outer allowed r, next, afterwards, opened,
        handles⟩) := by
  have hfill : (settled k (t :: tokens) taken indent outer allowed r).fill =
      .ok (settled k (t :: tokens) taken indent outer allowed r) := by
    rw [TokenQueue.fill, if_neg (by simp [settled]), isFresh_settled.dropStale]
    rfl
  rw [peek, hfill]
  rfl

/-- Peeking fills a queue that has no tokens. -/
theorem peek_ensures {s : EventSource} {P : TokenQueue → Prop} (hfill : Ensures s.queue.fill P)
    (hhead : ∀ q, P q → ∃ ts, q.tokens = t :: ts) :
    Ensures s.peek fun p => ∃ q, P q ∧ p = (t, { s with queue := q }) := by
  rw [peek]
  refine Ensures.bind hfill ?_
  intro q hq
  obtain ⟨ts, hts⟩ := hhead q hq
  rw [hts]
  exact ensures_ok ⟨q, hq, rfl⟩

/-- A step is the event that is read for what is expected next. -/
theorem step_ensures {s : EventSource} {read : EventStep} {P : Event × EventSource → Prop}
    (hstep : s.step = read.map fun p => (some p.1, p.2)) (h : Ensures read P) :
    Ensures s.step fun p => ∃ e s', P (e, s') ∧ p = (some e, s') := by
  intro p hp
  rw [hstep] at hp
  cases read with
  | error f => exact absurd hp (by simp [Except.map])
  | ok found => exact ⟨found.1, found.2, h found rfl, (Except.ok.inj hp).symm⟩

theorem step_ensures_eq {s s' : EventSource} {read : EventStep} {e : Event}
    (hstep : s.step = read.map fun p => (some p.1, p.2)) (h : Ensures read (· = (e, s'))) :
    Ensures s.step (· = (some e, s')) := by
  refine Ensures.mono (step_ensures hstep h) ?_
  rintro _ ⟨e', s'', heq, rfl⟩
  rw [(Prod.mk.inj heq).1, (Prod.mk.inj heq).2]

/-- The source at the start of a text, once the start of the stream is read. -/
def begun (text : List Char) : EventSource :=
  ⟨settled (Cursor.start text) [] 1 (-1) [] true (Refusal.find? 0 0 text), .implicitDocument, [], [],
    []⟩

theorem step_streamStart (text : List Char) :
    Ensures (EventSource.start text).step
      (· = (some ⟨.streamStart, Mark.origin⟩, begun text)) := by
  have hfill : Ensures (TokenQueue.start text).fill
      (· = settled (Cursor.start text) [⟨.streamStart, Mark.origin⟩] 0 (-1) [] true
        (Refusal.find? 0 0 text)) := by
    show Ensures (fillUpTo (text.length + 3) (TokenQueue.start text)) _
    rw [fillUpTo_of_nil rfl]
    refine Ensures.bind (P := fun q => q = settled (Cursor.start text)
      [⟨.streamStart, Mark.origin⟩] 0 (-1) [] true (Refusal.find? 0 0 text)) ?_ ?_
    · show Ensures ((TokenQueue.start text).guarded 1 >>= _) _
      refine Ensures.bind (guarded_ensures _ 1) ?_
      intro q hq
      rw [hq]
      exact ensures_ok rfl
    · intro q hq
      rw [hq, fillUpTo_settled (List.cons_ne_nil _ _)]
      exact ensures_ok rfl
  apply step_ensures_eq rfl
  refine Ensures.bind (peek_ensures hfill fun q hq => ⟨[], by rw [hq]; rfl⟩) ?_
  rintro _ ⟨q, rfl, rfl⟩
  exact ensures_ok rfl

variable {w v rest : List Char} {m : Mark}

/-- The source in a mapping, after a key and its colon. -/
def afterKey (w rest : List Char) (m : Mark) (taken : Nat) (outer : List Int) (r : Option Refusal)
    (afterwards : List Expectation) (opened : List Mark) (handles : List (Octets × Octets)) :
    EventSource :=
  ⟨settled ⟨rest, (m.past w).past [':']⟩ [⟨.value, m.past w⟩] taken 0 outer false r,
    .blockMappingValue, afterwards, opened, handles⟩

/-- The source in a mapping, after a value. -/
def afterValue (k : Cursor) (taken : Nat) (outer : List Int) (allowed : Bool) (r : Option Refusal)
    (afterwards : List Expectation) (opened : List Mark) (handles : List (Octets × Octets)) :
    EventSource :=
  ⟨settled k [] taken 0 outer allowed r, .blockMappingKey, afterwards, opened, handles⟩

/-- The value that follows a key is the next event. -/
theorem step_value {style : ScalarStyle} {written gap after : List Char} (hne : gap ≠ [])
    (hgap : ∀ c ∈ gap, isSpace c = true) (hv : style.Writes v written)
    (hafter : endsScalar after = true) :
    Ensures (afterKey w (gap ++ (written ++ after)) m taken outer r afterwards opened handles).step
      fun p => ∃ k allowed n, p = (some ⟨.scalar .none v style, n⟩,
          afterValue k (taken + 2) outer allowed r afterwards opened handles) ∧
        k.Follows allowed after := by
  have hfill : Ensures (settled ⟨gap ++ (written ++ after), (m.past w).past [':']⟩ [] (taken + 1) 0
      outer false r).fill _ := fill_value hne hgap hv hafter
  refine (step_ensures rfl (P := fun p => ∃ k allowed n, p = (⟨.scalar .none v style, n⟩,
      afterValue k (taken + 2) outer allowed r afterwards opened handles) ∧
        k.Follows allowed after) ?_).mono ?_
  · show Ensures (readBlockMappingValue _) _
    rw [readBlockMappingValue, afterKey, peek_settled]
    show Ensures (peek _ >>= _) _
    refine Ensures.bind (peek_ensures (t := ⟨.scalar v style, ((m.past w).past [':']).past gap⟩)
      hfill ?_) ?_
    · rintro _ ⟨k, allowed, rfl, -⟩
      exact ⟨[], rfl⟩
    · rintro _ ⟨_, ⟨k, allowed, rfl, hk⟩, rfl⟩
      exact ensures_ok ⟨k, allowed, _, rfl, hk⟩
  · rintro _ ⟨e, s', ⟨k, allowed, n, heq, hk⟩, rfl⟩
    rw [(Prod.mk.inj heq).1, (Prod.mk.inj heq).2]
    exact ⟨k, allowed, n, rfl, hk⟩

/-- A key at the start of a line is the next event in a mapping at the left. -/
theorem step_key (hw : isPlainWord w = true) (hshort : Text.bytes w ≤ 1024)
    (hrest : startsSeparated rest = true) (hcolumn : m.column = 0)
    (hskip : skipToToken (k.rest.length + 1) (settled k [] taken 0 outer allowed r) =
      settled ⟨w ++ ':' :: rest, m⟩ [] taken 0 outer true r) :
    Ensures (afterValue k taken outer allowed r afterwards opened handles).step
      (· = (some ⟨.scalar .none w .plain, m⟩,
        afterKey w rest m (taken + 2) outer r afterwards opened handles)) := by
  have hfill : Ensures (settled k [] taken 0 outer allowed r).fill
      (· = settled ⟨rest, (m.past w).past [':']⟩ (keyTokens w m) taken 0 outer false r) :=
    fill_key hw hshort hrest hcolumn (Int.le_refl 0) hskip
  refine step_ensures_eq rfl ?_
  show Ensures (readBlockMappingKey _) _
  rw [readBlockMappingKey, afterValue]
  refine Ensures.bind (peek_ensures (t := ⟨.key, m⟩) hfill ?_) ?_
  · rintro _ rfl
    exact ⟨_, rfl⟩
  · rintro _ ⟨_, rfl, rfl⟩
    exact ensures_ok rfl

/-- The source at the first key of a document, with the mapping that the key opens ahead. -/
def atMapping (w rest : List Char) (r : Option Refusal) (next : Expectation) : EventSource :=
  ⟨afterColon w rest Mark.origin 1 (-1) [] r, next, [.documentEnd], [], defaultHandles⟩

/-- A key at the start of a text begins a document. -/
theorem step_documentStart (hw : isPlainWord w = true) (hshort : Text.bytes w ≤ 1024)
    (hrest : startsSeparated rest = true) :
    Ensures (begun (w ++ ':' :: rest)).step
      (· = (some ⟨.documentStart, Mark.origin⟩,
        atMapping w rest (Refusal.find? 0 0 (w ++ ':' :: rest)) .blockNode)) := by
  obtain ⟨c, cs, hstart, hc⟩ := exists_cons_of_isPlainWord hw (':' :: rest)
  have hskip := skipToToken_of_start (q := (begun (w ++ ':' :: rest)).queue) hstart
    (isSeparation_of_isAlphanum hc) (ne_of_isAlphanum hc (by decide))
    (ne_of_isAlphanum hc (by decide)) ((w ++ ':' :: rest).length + 1)
  have hfill : Ensures (begun (w ++ ':' :: rest)).queue.fill
      (· = afterColon w rest Mark.origin 1 (-1) [] (Refusal.find? 0 0 (w ++ ':' :: rest))) :=
    fill_key hw hshort hrest rfl (by decide) hskip
  refine step_ensures_eq rfl ?_
  show Ensures (peek _ >>= _) _
  refine Ensures.bind (peek_ensures (t := ⟨.blockMappingStart, Mark.origin⟩) hfill ?_) ?_
  · rintro _ rfl
    exact ⟨_, rfl⟩
  · rintro _ ⟨_, rfl, rfl⟩
    exact ensures_ok rfl

theorem step_mappingStart : (atMapping w rest r .blockNode).step =
    .ok (some ⟨.mappingStart .none, Mark.origin⟩, atMapping w rest r .blockMappingFirst) := by
  rfl

theorem step_firstKey : (atMapping w rest r .blockMappingFirst).step =
    .ok (some ⟨.scalar .none w .plain, Mark.origin⟩,
      afterKey w rest Mark.origin 4 [-1] r [.documentEnd] [Mark.origin] defaultHandles) := by
  rfl

end EventSource

/-! ## Entries on lines -/

/-- An entry of a heading: a key, which is written plain, and a value in a style. -/
structure WrittenEntry where
  key : List Char
  value : List Char
  style : ScalarStyle

namespace WrittenEntry

/-- Whether a line is an entry: its key from the start of the line on, some blanks after the colon,
its value, and what may stand behind a value. -/
inductive IsOn (e : WrittenEntry) : List Char → Prop
  | line {gap written tail : List Char} (key : isPlainWord e.key = true)
      (short : Text.bytes e.key ≤ 1024) (apart : gap ≠ []) (blank : ∀ c ∈ gap, isSpace c = true)
      (writes : e.style.Writes e.value written) (ends : IsTail tail) :
      IsOn e (e.key ++ ':' :: (gap ++ (written ++ tail)))

theorem IsOn.exists_cons {e : WrittenEntry} {line : List Char} (h : e.IsOn line)
    (rest : List Char) : ∃ c cs, line ++ rest = c :: cs ∧ c.isAlphanum = true := by
  obtain ⟨hkey, -⟩ := h
  rw [List.append_assoc]
  exact exists_cons_of_isPlainWord hkey _

theorem IsOn.length_pos {e : WrittenEntry} {line : List Char} (h : e.IsOn line) :
    0 < line.length := by
  obtain ⟨hkey, -⟩ := h
  rw [List.length_append, List.length_cons]
  omega

/-- Whether an entry is read as two texts, and not as a number or the like. -/
def IsText (e : WrittenEntry) : Prop :=
  Scalar.ofPlain e.key = .text ∧ (e.style = .plain → Scalar.ofPlain e.value = .text)

end WrittenEntry

/-- Whether a text begins with some entries, each on a line of its own. What stands below the last
of them goes on with no scalar of it. -/
inductive BeginsWith : List WrittenEntry → List Char → Prop
  | last {e : WrittenEntry} {line rest : List Char} (on : e.IsOn line)
      (ends : endsScalar rest = true) : BeginsWith [e] (line ++ rest)
  | entry {e : WrittenEntry} {es : List WrittenEntry} {line brk next : List Char} (on : e.IsOn line)
      (feeds : brk ≠ []) (breaks : ∀ c ∈ brk, isBreak c = true) (below : BeginsWith es next) :
      BeginsWith (e :: es) (line ++ (brk ++ next))

namespace BeginsWith

variable {es : List WrittenEntry} {text : List Char}

theorem length_le (h : BeginsWith es text) : es.length ≤ text.length := by
  induction h with
  | last on _ =>
    have hpos := on.length_pos
    rw [List.length_append, List.length_singleton]
    omega
  | entry on _ _ _ ih =>
    have hpos := on.length_pos
    simp only [List.length_append, List.length_cons]
    omega

/-- A text that begins with an entry begins with a letter or digit. -/
theorem exists_cons (h : BeginsWith es text) :
    ∃ c cs, text = c :: cs ∧ c.isAlphanum = true := by
  cases h with
  | last on _ => exact on.exists_cons _
  | entry on _ _ _ => exact on.exists_cons _

end BeginsWith

/-! ## Loading -/

open EventSource

/-- The items of some entries. -/
def kindsOf (es : List WrittenEntry) : List ItemKind :=
  es.flatMap fun e => [.scalar none e.key .plain, .scalar none e.value e.style]

section Loading

variable {n : Nat} {l : Loading} {s s' : EventSource} {m : Mark}

/-- Loading only adds items. -/
theorem exists_items_loadUpTo (n : Nat) (l : Loading) (s : EventSource) :
    ∃ items, (loadUpTo n l s).1.items = l.items.reverse ++ items := by
  -- on the events; an event adds an item, leaves the items as they are, or is the last
  induction n generalizing l s with
  | zero => exact ⟨[], (List.append_nil _).symm⟩
  | succ n ih =>
    have hadd : ∀ (l' : Loading) (kind : ItemKind) (m : Mark) (s' : EventSource),
        l'.items = l.items → ∃ items, (loadUpTo n (l'.add kind m) s').1.items =
          l.items.reverse ++ items := by
      intro l' kind m s' hl'
      obtain ⟨items, hitems⟩ := ih (l'.add kind m) s'
      refine ⟨⟨kind, m⟩ :: items, ?_⟩
      rw [hitems, Loading.add, hl', List.reverse_cons, List.append_assoc]
      rfl
    have hmark : ∀ (name : Option (List Char)), (l.mark name).items = l.items := by
      intro name
      cases name <;> rfl
    rw [loadUpTo]
    split
    · exact ⟨[], (List.append_nil _).symm⟩
    · exact ⟨[], (List.append_nil _).symm⟩
    · rename_i e s' _
      split
      · exact ih l s'
      · exact ih l s'
      · exact ⟨[], (List.append_nil _).symm⟩
      · exact ⟨[⟨.absent, e.mark⟩], List.reverse_cons⟩
      · split
        · exact hadd l _ _ _ rfl
        · exact ⟨[], (List.append_nil _).symm⟩
      · exact hadd _ _ _ _ (hmark _)
      · exact hadd _ _ _ _ (hmark _)
      · exact hadd _ _ _ _ (hmark _)
      · exact hadd l _ _ _ rfl
      · exact hadd l _ _ _ rfl

/-- A document that loads without a fault has no fault at any event. -/
theorem step_eq_of_fault_eq_none {P : Option Event × EventSource → Prop}
    (hfault : (loadUpTo (n + 1) l s).1.fault = none) (h : Ensures s.step P) :
    ∃ p, s.step = .ok p ∧ P p := by
  rw [loadUpTo] at hfault
  cases hstep : s.step with
  | error f =>
    rw [hstep] at hfault
    exact absurd hfault (Option.some_ne_none _)
  | ok p => exact ⟨p, rfl, h p hstep⟩

theorem loadUpTo_scalar {text : List Char} {style : ScalarStyle}
    (h : s.step = .ok (some ⟨.scalar .none text style, m⟩, s')) :
    loadUpTo (n + 1) l s = loadUpTo n (l.add (.scalar none text style) m) s' := by
  rw [loadUpTo, h]
  rfl

variable {k : Cursor} {w v rest : List Char} {taken : Nat} {outer : List Int} {allowed : Bool}
  {r : Option Refusal} {afterwards : List Expectation} {opened : List Mark}
  {handles : List (Octets × Octets)}

/-- After a key the value is loaded. -/
theorem loadUpTo_afterKey {style : ScalarStyle} {written gap after : List Char} (hne : gap ≠ [])
    (hgap : ∀ c ∈ gap, isSpace c = true) (hv : style.Writes v written)
    (hafter : endsScalar after = true)
    (hfault : (loadUpTo (n + 1) l (afterKey w (gap ++ (written ++ after)) m taken outer r afterwards
      opened handles)).1.fault = none) :
    ∃ k allowed x, loadUpTo (n + 1) l (afterKey w (gap ++ (written ++ after)) m taken outer r
        afterwards opened handles) =
        loadUpTo n (l.add (.scalar none v style) x)
          (afterValue k (taken + 2) outer allowed r afterwards opened handles) ∧
      k.Follows allowed after := by
  obtain ⟨p, hstep, k, allowed, x, rfl, hk⟩ :=
    step_eq_of_fault_eq_none hfault (step_value hne hgap hv hafter)
  exact ⟨k, allowed, x, loadUpTo_scalar hstep, hk⟩

/-- A key at the start of a line is loaded. -/
theorem loadUpTo_key (hw : isPlainWord w = true) (hshort : Text.bytes w ≤ 1024)
    (hrest : startsSeparated rest = true) (hcolumn : m.column = 0)
    (hskip : skipToToken (k.rest.length + 1) (settled k [] taken 0 outer allowed r) =
      settled ⟨w ++ ':' :: rest, m⟩ [] taken 0 outer true r)
    (hfault : (loadUpTo (n + 1) l (afterValue k taken outer allowed r afterwards opened
      handles)).1.fault = none) :
    loadUpTo (n + 1) l (afterValue k taken outer allowed r afterwards opened handles) =
      loadUpTo n (l.add (.scalar none w .plain) m)
        (afterKey w rest m (taken + 2) outer r afterwards opened handles) := by
  obtain ⟨p, hstep, rfl⟩ := step_eq_of_fault_eq_none hfault (step_key hw hshort hrest hcolumn hskip)
  exact loadUpTo_scalar hstep

section Entries

variable {loaded : Document × Option EventSource} (hfault : loaded.1.fault = none)
include hfault

/-- An entry on a line is loaded, if its key is. -/
theorem loadUpTo_line {e : WrittenEntry} {line rest : List Char} (on : e.IsOn line)
    (hends : endsScalar rest = true)
    (hkey : ∀ after, isPlainWord e.key = true → Text.bytes e.key ≤ 1024 →
      startsSeparated after = true → line ++ rest = e.key ++ ':' :: after →
      loaded = loadUpTo (n + 1) (l.add (.scalar none e.key .plain) m)
        (afterKey e.key after m taken outer r afterwards opened handles)) :
    ∃ k allowed x tail, IsTail tail ∧ k.Follows allowed (tail ++ rest) ∧
      loaded = loadUpTo n ((l.add (.scalar none e.key .plain) m).add (.scalar none e.value e.style) x)
        (afterValue k (taken + 2) outer allowed r afterwards opened handles) := by
  obtain ⟨hw, hshort, hne, hgap, hv, htail⟩ := on
  rename_i gap written tail
  have hspaced := startsSeparated_append hne (fun c hc => isSeparation_of_isSpace (hgap c hc))
    (written ++ (tail ++ rest))
  have hloaded := hkey _ hw hshort hspaced (by simp)
  rw [hloaded] at hfault ⊢
  obtain ⟨k, allowed, x, hvalue, hk⟩ :=
    loadUpTo_afterKey hne hgap hv (htail.endsScalar hends) hfault
  exact ⟨k, allowed, x, tail, htail, hk, hvalue⟩

/-- The entries that a text begins with are loaded, if the key of the first of them is. -/
theorem kinds_loadUpTo {es : List WrittenEntry} {text : List Char} (h : BeginsWith es text)
    (hkey : ∀ w after, isPlainWord w = true → Text.bytes w ≤ 1024 → startsSeparated after = true →
      text = w ++ ':' :: after → loaded = loadUpTo n (l.add (.scalar none w .plain) m)
        (afterKey w after m taken outer r afterwards opened handles))
    (hn : 2 * es.length ≤ n) :
    ∃ more, loaded.1.items.map Item.kind = l.items.reverse.map Item.kind ++ kindsOf es ++ more := by
  -- on the entries; the state after a value is the same for each of them
  induction h generalizing m n l taken loaded with
  | last on hends =>
    obtain ⟨n, rfl⟩ : ∃ i, n = i + 1 := ⟨n - 1, by rw [List.length_singleton] at hn; omega⟩
    obtain ⟨k, allowed, x, -, -, -, rfl⟩ := loadUpTo_line hfault on hends (hkey _)
    obtain ⟨items, hitems⟩ := exists_items_loadUpTo n _
      (afterValue k (taken + 2) outer allowed r afterwards opened handles)
    refine ⟨items.map Item.kind, ?_⟩
    rw [hitems]
    simp [Loading.add, kindsOf]
  | entry on hne hbrk below ih =>
    rw [List.length_cons] at hn
    obtain ⟨n, rfl⟩ : ∃ i, n = i + 2 := ⟨n - 2, by omega⟩
    obtain ⟨c, cs, rfl, hc⟩ := below.exists_cons
    obtain ⟨k, allowed, x, tail, htail, hk, rfl⟩ :=
      loadUpTo_line hfault on (endsScalar_breaks hne hbrk hc) (hkey _)
    obtain ⟨m', hcolumn, hskip⟩ := exists_skipToToken_follows
      (q := settled k [] (taken + 2) 0 outer allowed r) rfl hbrk hc hk htail hne rfl rfl
    have hnext := fun w after (hw : isPlainWord w = true) hshort
        (hafter : startsSeparated after = true) (htext : c :: cs = w ++ ':' :: after) =>
      loadUpTo_key hw hshort hafter hcolumn (htext ▸ hskip) hfault
    obtain ⟨more, hmore⟩ := ih hfault hnext (by omega)
    refine ⟨more, ?_⟩
    rw [hmore]
    simp [Loading.add, kindsOf]

end Entries

/-- A key at the start of a text is loaded as the first key of a mapping. -/
theorem loadUpTo_start (hw : isPlainWord w = true) (hshort : Text.bytes w ≤ 1024)
    (hrest : startsSeparated rest = true)
    (hfault : (loadUpTo (n + 4) l (EventSource.start (w ++ ':' :: rest))).1.fault = none) :
    loadUpTo (n + 4) l (EventSource.start (w ++ ':' :: rest)) =
      loadUpTo n ((l.add (.mappingStart none) Mark.origin).add (.scalar none w .plain) Mark.origin)
        (afterKey w rest Mark.origin 4 [-1] (Refusal.find? 0 0 (w ++ ':' :: rest)) [.documentEnd]
          [Mark.origin] defaultHandles) := by
  obtain ⟨_, hstream, rfl⟩ := step_eq_of_fault_eq_none hfault (step_streamStart _)
  have hbegun : loadUpTo (n + 4) l (EventSource.start (w ++ ':' :: rest)) =
      loadUpTo (n + 3) l (begun (w ++ ':' :: rest)) := by
    rw [loadUpTo, hstream]
  rw [hbegun] at hfault ⊢
  obtain ⟨_, hdocument, rfl⟩ :=
    step_eq_of_fault_eq_none hfault (step_documentStart hw hshort hrest)
  rw [loadUpTo, hdocument]
  show loadUpTo (n + 2) l (atMapping w rest _ .blockNode) = _
  rw [loadUpTo, step_mappingStart]
  exact loadUpTo_scalar step_firstKey

/-- **A document that begins with some entries has them first.** -/
theorem Document.kinds_load {es : List WrittenEntry} {text : List Char} (h : BeginsWith es text)
    (hfault : (Document.load text).1.fault = none) :
    ∃ more, (Document.load text).1.items.map Item.kind =
      .mappingStart none :: (kindsOf es ++ more) := by
  have hle := h.length_le
  have hkey : ∀ w after, isPlainWord w = true → Text.bytes w ≤ 1024 →
      startsSeparated after = true → text = w ++ ':' :: after →
      Document.load text = loadUpTo (8 * text.length + 12)
        ((Loading.start.add (.mappingStart none) Mark.origin).add (.scalar none w .plain) Mark.origin)
        (afterKey w after Mark.origin 4 [-1] (Refusal.find? 0 0 text) [.documentEnd] [Mark.origin]
          defaultHandles) := by
    rintro w after hw hshort hafter rfl
    exact loadUpTo_start hw hshort hafter hfault
  exact kinds_loadUpTo hfault h hkey (by omega)

end Loading

/-! ## Reading -/

section Reading

variable {d : Document} {n depth : Nat} {place : Place} {mark : Mark} {r : Reading}
  {done : List (Value × Value)}

theorem Document.take_cons {item : Item} {rest : List Item} {jumps : Nat} :
    d.take ⟨item :: rest, jumps⟩ = .ok (item, ⟨rest, jumps⟩) := rfl

/-- The entries that are read already stay the first. -/
theorem readEntries_ensures : Ensures (readEntries d n depth place mark done r) fun p =>
    ∃ more, p.1 = done.reverse ++ more := by
  -- what the keys and values are does not matter, so nothing is asked of their readings
  induction n generalizing done r with
  | zero =>
    rw [readEntries]
    exact ensures_error _ _
  | succ n ih =>
    rw [readEntries]
    refine Ensures.bind (P := fun _ => True) (fun _ _ => trivial) ?_
    rintro item -
    split
    · exact ensures_ok ⟨[], (List.append_nil _).symm⟩
    · refine Ensures.bind (P := fun _ => True) (fun _ _ => trivial) ?_
      rintro ⟨key, r₁⟩ -
      dsimp only
      split
      · exact ensures_error _ _
      · refine Ensures.bind (P := fun _ => True) (fun _ _ => trivial) ?_
        rintro ⟨value, r₂⟩ -
        refine Ensures.mono ih ?_
        rintro p ⟨more, hmore⟩
        refine ⟨(key, value) :: more, ?_⟩
        rw [hmore, List.reverse_cons, List.append_assoc]
        rfl

/-- A scalar that stands for its text is read as a string. -/
theorem readValue_text {text : List Char} {style : ScalarStyle} {rest : List Item} {jumps : Nat}
    {m : Mark} (htext : style = .plain → Scalar.ofPlain text = .text) :
    readValue d (n + 1) depth place ⟨⟨.scalar none text style, m⟩ :: rest, jumps⟩ =
      .ok (.string (String.ofList text), ⟨rest, jumps⟩) := by
  have hfound : (if style == .plain then Scalar.found text else .string text) =
      Found.string text := by
    split
    · rename_i hplain
      rw [Scalar.found, htext (beq_iff_eq.1 hplain)]
    · rfl
  have hvalue : scalarValue none text style = .ok (.string (String.ofList text)) := by
    show (if style == .plain then Scalar.found text else Found.string text).value = _
    rw [hfound]
    rfl
  rw [readValue, Document.take_cons]
  simp [bind, Except.bind, pure, Except.pure, applicationTag?, underTag, hvalue]

/-- What is read from an entry of texts on is what is read after it. -/
theorem readEntries_text {e : WrittenEntry} {m m' : Mark} {rest : List Item} {jumps : Nat}
    {P : List (Value × Value) × Reading → Prop} (he : e.IsText)
    (h : ∀ n, Ensures (readEntries d n depth place mark
      ((.string (String.ofList e.key), .string (String.ofList e.value)) :: done) ⟨rest, jumps⟩) P) :
    Ensures (readEntries d n depth place mark done
      ⟨⟨.scalar none e.key .plain, m⟩ :: ⟨.scalar none e.value e.style, m'⟩ :: rest, jumps⟩)
      P := by
  cases n with
  | zero =>
    rw [readEntries]
    exact ensures_error _ _
  | succ n =>
    rw [readEntries]
    show Ensures (readValue d n depth place _ >>= _) P
    cases n with
    | zero =>
      rw [readValue]
      exact ensures_error _ _
    | succ n =>
      rw [readValue_text fun _ => he.1]
      dsimp only [bind, Except.bind]
      split
      · exact ensures_error _ _
      · rw [readValue_text he.2]
        exact h (n + 1)

/-- Some entries as values. -/
def valuesOf (es : List WrittenEntry) : List (Value × Value) :=
  es.map fun e => (.string (String.ofList e.key), .string (String.ofList e.value))

/-- Entries of texts that are next are read next. -/
theorem readEntries_entries {es : List WrittenEntry} {more : List ItemKind}
    (hitems : r.rest.map Item.kind = kindsOf es ++ more) (htexts : ∀ e ∈ es, e.IsText) :
    Ensures (readEntries d n depth place mark done r) fun p =>
      ∃ more, p.1 = done.reverse ++ valuesOf es ++ more := by
  induction es generalizing n done r with
  | nil => simpa [valuesOf] using readEntries_ensures
  | cons e es ih =>
    obtain ⟨items, jumps⟩ := r
    obtain ⟨he, htexts⟩ := List.forall_mem_cons.1 htexts
    obtain ⟨⟨_, m⟩, items, rfl, rfl, hitems₁⟩ := List.map_eq_cons_iff.1 hitems
    obtain ⟨⟨_, m'⟩, items, rfl, rfl, hitems₂⟩ := List.map_eq_cons_iff.1 hitems₁
    refine readEntries_text he ?_
    intro n
    refine (ih hitems₂ htexts).mono ?_
    rintro p ⟨more, hmore⟩
    refine ⟨more, ?_⟩
    rw [hmore, List.reverse_cons, List.append_assoc done.reverse]
    rfl

/-- A mapping that begins with entries of texts has them first. -/
theorem value_ensures {es : List WrittenEntry} {more : List ItemKind}
    (hitems : d.items.map Item.kind = .mappingStart none :: (kindsOf es ++ more))
    (htexts : ∀ e ∈ es, e.IsText) :
    Ensures (d.value d.reading) fun p => ∃ more, p.1 = .mapping (valuesOf es ++ more) := by
  obtain ⟨⟨_, m⟩, items, hcons, rfl, hitems'⟩ := List.map_eq_cons_iff.1 hitems
  obtain ⟨n, hn⟩ : ∃ n, d.recursionBound = n + 1 := by
    refine ⟨d.recursionBound - 1, ?_⟩
    have hpos : 0 < d.recursionBound := Nat.mul_pos (by decide) (Nat.succ_pos _)
    omega
  rw [Document.value, hn, Document.reading, hcons, readValue, Document.take_cons]
  show Ensures (readEntries d n 127 .root m [] ⟨items, 0⟩ >>= _) _
  refine Ensures.bind (readEntries_entries (r := ⟨items, 0⟩) hitems' htexts) ?_
  rintro ⟨entries, r⟩ ⟨more, rfl⟩
  exact ensures_ok ⟨more, rfl⟩

end Reading

/-- **A value read from a text that begins with some entries is a mapping with these first.** -/
theorem Value.ofText_beginsWith {es : List WrittenEntry} {text : List Char}
    (h : BeginsWith es text) (htexts : ∀ e ∈ es, e.IsText) :
    Ensures (Value.ofText text) fun value => ∃ more, value = .mapping (valuesOf es ++ more) := by
  have hload := Document.kinds_load h
  rw [Value.ofText, Document.readText]
  generalize Document.load text = loaded at hload ⊢
  obtain ⟨d, after⟩ := loaded
  show Ensures (d.value d.reading >>= _) _
  cases hfault : d.fault with
  | some fault =>
    -- a document with a fault has no value
    refine Ensures.bind (P := fun _ => True) (fun _ _ => trivial) ?_
    rintro p -
    exact ensures_error _ _
  | none =>
    obtain ⟨more, hitems⟩ := hload hfault
    refine Ensures.bind (value_ensures hitems htexts) ?_
    rintro ⟨value, r⟩ ⟨more, rfl⟩
    dsimp only
    split
    · exact ensures_error _ _
    · exact ensures_ok ⟨more, rfl⟩

end ResourceGraph.Yaml
