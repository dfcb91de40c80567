import Enclaves.Document.Value
import Mathlib.Data.List.Forall2
import Mathlib.Data.Option.Basic

/-!
# Laws of readers

Two laws are carried from readers to the readers that are built from them.

`Reader.Takes`: a reader takes what a writer put down off the front, whatever follows. For a record
that is written as an object this needs its keys to be different, and then follows from its fields
(`Fields.Writes.takes`).

`Reader.Refines`: one reader accepts only what another accepts too, and the values have something to
do with each other. A reader that checks what it reads refines one that takes it as it stands. That
two records have the same keys in the same order is all that is asked (`Fields.Refines.record`): it
holds of both forms of a record, of members in any order and among unknown ones.
-/

namespace Enclaves.Json

theorem separated_cons {first : List Token} {docs : List (List Token)} (h : docs ≠ []) :
    separated (first :: docs) = first ++ .comma :: separated docs := by
  cases docs with
  | nil => exact absurd rfl h
  | cons next rest => rfl

/-- Documents are no more than the tokens they take with their commas. -/
theorem length_le_length_separated (docs : List (List Token)) :
    docs.length ≤ (separated docs).length + 1 := by
  induction docs with
  | nil => exact Nat.zero_le _
  | cons first docs ih =>
    by_cases hlast : docs = []
    · subst hlast
      exact Nat.succ_le_succ (Nat.zero_le _)
    · rw [separated_cons hlast, List.length_cons, List.length_append, List.length_cons]
      omega

namespace Reader

variable {α β γ δ : Type} {tokens rest : List Token} {a : α} {b : β} {fuel : Nat}

/-! ## Taking what was written -/

/-- A reader takes these tokens off the front, whatever follows them. -/
def Takes (read : Reader α) (tokens : List Token) (a : α) : Prop :=
  ∀ rest, read (tokens ++ rest) = .ok (a, rest)

namespace Takes

variable {read : Reader α}

/-- A number below the bound is taken from its token. -/
theorem natural {n bound : Nat} (h : n < bound) : (natural bound).Takes [.natural n] n := by
  intro rest
  exact if_pos h

/-- A text is taken from its token. -/
theorem text (s : String) : text.Takes [textToken s] s := fun _ => rfl

/-- What is taken may be made into something else. -/
theorem map {f : α → β} (h : read.Takes tokens a) : (map f read).Takes tokens (f a) := by
  intro rest
  rw [Reader.map, h]

/-- What is taken and accepted is taken. -/
theorem refine {accept : α → Except String β} (h : read.Takes tokens a)
    (haccept : accept a = .ok b) : (refine accept read).Takes tokens b := by
  intro rest
  rw [Reader.refine, h]
  dsimp only
  rw [haccept]

/-- A name is read as what it stands for. -/
theorem choice {names : List (String × α)} {name : String} (h : names.lookup name = some a) :
    (choice names).Takes [textToken name] a := by
  intro rest
  rw [List.singleton_append, textToken, Reader.choice, h]

/-- The elements of an array are taken up to the mark that closes it. -/
theorem elements {write : α → List Token} {xs : List α} (h : ∀ x ∈ xs, read.Takes (write x) x)
    (hne : xs ≠ []) (hfuel : xs.length ≤ fuel) :
    elements read fuel (separated (xs.map write) ++ .arrayClose :: rest) = .ok (xs, rest) := by
  induction xs generalizing fuel with
  | nil => exact absurd rfl hne
  | cons x xs ih =>
    obtain ⟨hfirst, hrest⟩ := List.forall_mem_cons.mp h
    obtain ⟨fuel, rfl⟩ : ∃ k, fuel = k + 1 := ⟨fuel - 1, by rw [List.length_cons] at hfuel; omega⟩
    by_cases hlast : xs = []
    · subst hlast
      rw [List.map_singleton, separated, Reader.elements, hfirst]
    · have hfuel' : xs.length ≤ fuel := Nat.le_of_succ_le_succ hfuel
      rw [List.map_cons, separated_cons (by simpa using hlast), List.append_assoc,
        Reader.elements, hfirst, List.cons_append]
      dsimp only
      rw [Reader.map, ih hrest hlast hfuel']

/-- An array, if no element is taken for its end. -/
theorem list {write : α → List Token} {xs : List α} (h : ∀ x ∈ xs, read.Takes (write x) x)
    (hopen : ∀ x ∈ xs, ∃ first more, write x = first :: more ∧ first ≠ .arrayClose) :
    (list read).Takes (array (xs.map write)) xs := by
  intro rest
  have harray : array (xs.map write) ++ rest =
      .arrayOpen :: (separated (xs.map write) ++ .arrayClose :: rest) := by
    simp [array]
  rw [harray]
  cases xs with
  | nil => rfl
  | cons x xs =>
    have hlength := length_le_length_separated ((x :: xs).map write)
    have hread (fuel : Nat) (hfuel : (x :: xs).length ≤ fuel) :
        Reader.elements read fuel (separated ((x :: xs).map write) ++ .arrayClose :: rest) =
          .ok (x :: xs, rest) := elements h (by simp) hfuel
    obtain ⟨first, more, hfirst, hne⟩ := hopen x List.mem_cons_self
    obtain ⟨more', hcons⟩ : ∃ more', separated ((x :: xs).map write) ++ .arrayClose :: rest =
        first :: more' := by
      cases xs with
      | nil => exact ⟨_, by rw [List.map_singleton, separated, hfirst, List.cons_append]⟩
      | cons y ys =>
        exact ⟨_, by rw [List.map_cons, separated_cons (by simp), hfirst, List.cons_append,
          List.cons_append]⟩
    have hfuel : (x :: xs).length ≤ (first :: more').length := by
      rw [List.length_map] at hlength
      have hclose : 0 < (Token.arrayClose :: rest).length := Nat.succ_pos _
      rw [← hcons, List.length_append]
      omega
    rw [hcons] at hread ⊢
    rw [Reader.list]
    · exact hread _ hfuel
    · intro rest' heq
      exact hne (List.cons.inj heq).1

end Takes

end Reader

/-! ## Records as they are written -/

namespace Fields

variable {σ τ α β : Type} {fields : Fields σ α} {slots slots' : σ} {fuel : Nat} {a : α}
  {members : List (String × List Token)} {rest : List Token}

/-- A key is offered to the first field that has it, and refused if that was filled before. -/
theorem offer_of_eq {field : Field β} {slot : Option β} {key : String} (h : key = field.name) :
    (Fields.cons field fields).offer key (slot, slots) =
      match slot with
      | some _ => some (.error .shape)
      | none => some (.ok (Reader.map (fun a => (some a, slots)) field.read)) :=
  if_pos h

/-- A key that the first field does not have is offered to the others. -/
theorem offer_of_ne {field : Field β} {slot : Option β} {key : String} (h : key ≠ field.name) :
    (Fields.cons field fields).offer key (slot, slots) =
      match fields.offer key slots with
      | none => none
      | some (.error fault) => some (.error fault)
      | some (.ok read) => some (.ok (Reader.map (fun slots => (slot, slots)) read)) :=
  if_neg h

/-- What reads a member's value: the value of an unknown key is skipped. -/
def valueOf (fields : Fields σ α) (key : String) (slots : σ) : Except Fault (Reader σ) :=
  (fields.offer key slots).getD (.ok (Reader.map (fun _ => slots) Reader.skip))

/-- A member is read by its key: the key is looked up, then the value is read, then what follows. -/
theorem members_cons (key : String) (rest : List Token) :
    fields.members (fuel + 1) slots (.text (some key) :: rest) =
      match fields.valueOf key slots with
      | .error fault => .error fault
      | .ok read =>
        match Reader.mark .colon rest with
        | .error fault => .error fault
        | .ok ((), rest) =>
          match read rest with
          | .error fault => .error fault
          | .ok (slots, .comma :: rest) => fields.members fuel slots rest
          | .ok (slots, .objectClose :: rest) =>
            match fields.close slots with
            | .ok a => .ok (a, rest)
            | .error fault => .error fault
          | .ok _ => .error .syntactic := by
  rw [Fields.members, valueOf]
  cases fields.offer key slots with
  | none => rfl
  | some read => rfl

/-- An item is read in its place, behind a comma unless it is the first. -/
theorem items_of_ne {field : Field β} {first : Bool} {tokens : List Token}
    (h : tokens.head? ≠ some .arrayClose) :
    (Fields.cons field fields).items first tokens =
      match if first then .ok ((), tokens) else Reader.mark .comma tokens with
      | .error fault => .error fault
      | .ok ((), tokens) =>
        match field.read tokens with
        | .error fault => .error fault
        | .ok (a, tokens) => Reader.map (fun b => (a, b)) (fields.items false) tokens := by
  cases tokens with
  | nil => rfl
  | cons token more =>
    cases token with
    | arrayClose => exact absurd rfl h
    | _ => rfl

/-- Members in the order of the fields, and the record that the fields' readers take of them. -/
inductive Writes : {σ α : Type} → Fields σ α → List (String × List Token) → α → Prop
  | nil : Writes .nil [] ()
  | cons {σ α β : Type} {field : Field α} {fields : Fields σ β} {tokens : List Token} {a : α}
    {members : List (String × List Token)} {b : β} : field.read.Takes tokens a →
    Writes fields members b →
    Writes (.cons field fields) ((field.name, tokens) :: members) (a, b)

/-- A required field is written as one member. -/
theorem Writes.required {fields : Fields σ β} {read : Reader α} {tokens : List Token} {b : β}
    (name : String) (hfirst : read.Takes tokens a) (hrest : fields.Writes members b) :
    (Fields.cons (Enclaves.required name read) fields).Writes ((name, tokens) :: members) (a, b) :=
  .cons hfirst hrest

/-- Members that are taken one after the other, and what is in the slots then. -/
inductive Fills (fields : Fields σ α) : σ → List (String × List Token) → σ → Prop
  | nil (slots : σ) : Fills fields slots [] slots
  | cons {slots next last : σ} {key : String} {tokens : List Token}
    {members : List (String × List Token)} {read : Reader σ} :
    fields.offer key slots = some (.ok read) → read.Takes tokens next →
    Fills fields next members last → Fills fields slots ((key, tokens) :: members) last

/-- Members with other keys pass by the first field. -/
theorem Fills.behind {field : Field β} (h : fields.Fills slots members slots')
    (hkeys : ∀ m ∈ members, m.1 ≠ field.name) (slot : Option β) :
    (Fields.cons field fields).Fills (slot, slots) members (slot, slots') := by
  induction h with
  | nil => exact .nil _
  | @cons slots next last key tokens members read hoffer hread _ ih =>
    obtain ⟨hkey, hrest⟩ := List.forall_mem_cons.mp hkeys
    have hlifted : (Fields.cons field fields).offer key (slot, slots) =
        some (.ok (Reader.map (fun slots => (slot, slots)) read)) := by
      rw [offer_of_ne hkey, hoffer]
    exact .cons hlifted hread.map (ih hrest)

/-- Written members fill all slots. -/
theorem Writes.exists_fills (h : fields.Writes members a) (hkeys : (members.map Prod.fst).Nodup) :
    ∃ slots, fields.Fills fields.unread members slots ∧ fields.close slots = .ok a := by
  induction h with
  | nil => exact ⟨(), .nil (), rfl⟩
  | @cons σ α β field fields tokens a members b hread _ ih =>
    obtain ⟨hfirst, hrest⟩ := List.nodup_cons.mp hkeys
    obtain ⟨slots, hfills, hclose⟩ := ih hrest
    have hoffer : (Fields.cons field fields).offer field.name (none, fields.unread) =
        some (.ok (Reader.map (fun a => (some a, fields.unread)) field.read)) := by
      rw [offer_of_eq rfl]
    have hothers : ∀ m ∈ members, m.1 ≠ field.name := by
      rintro m hm heq
      exact hfirst (List.mem_map.mpr ⟨m, hm, heq⟩)
    refine ⟨(some a, slots), .cons hoffer hread.map (hfills.behind hothers _), ?_⟩
    rw [close, Option.some_or, hclose]

/-- A member of an object. -/
def member (m : String × List Token) : List Token := textToken m.1 :: .colon :: m.2

/-- Members that fill the slots are read up to the mark that closes them. -/
theorem members_of_fills (h : fields.Fills slots members slots')
    (hclose : fields.close slots' = .ok a) (hne : members ≠ []) (hfuel : members.length ≤ fuel) :
    fields.members fuel slots (separated (members.map member) ++ .objectClose :: rest) =
      .ok (a, rest) := by
  induction h generalizing fuel with
  | nil => exact absurd rfl hne
  | @cons slots next last key tokens more read hoffer hread hfills ih =>
    obtain ⟨fuel, rfl⟩ : ∃ k, fuel = k + 1 := ⟨fuel - 1, by rw [List.length_cons] at hfuel; omega⟩
    by_cases hlast : more = []
    · subst hlast
      cases hfills
      rw [List.map_singleton, separated]
      show fields.members (fuel + 1) slots
        (.text (some key) :: .colon :: (tokens ++ .objectClose :: rest)) = _
      rw [members_cons, valueOf, hoffer, Option.getD_some]
      dsimp only
      rw [Reader.mark, if_pos rfl]
      dsimp only
      rw [hread]
      dsimp only
      rw [hclose]
    · have hfuel' : more.length ≤ fuel := Nat.le_of_succ_le_succ hfuel
      rw [List.map_cons, separated_cons (by simpa using hlast)]
      have happend : member (key, tokens) ++ .comma :: separated (more.map member) ++
          .objectClose :: rest = .text (some key) :: .colon ::
            (tokens ++ .comma :: (separated (more.map member) ++ .objectClose :: rest)) := by
        simp [member, textToken]
      rw [happend, members_cons, valueOf, hoffer, Option.getD_some]
      dsimp only
      rw [Reader.mark, if_pos rfl]
      dsimp only
      rw [hread]
      exact ih hclose hlast hfuel'

/-- A record is taken from the object that was written of it. -/
theorem Writes.takes (h : fields.Writes members a) (hkeys : (members.map Prod.fst).Nodup) :
    fields.record.Takes (object members) a := by
  obtain ⟨slots, hfills, hclose⟩ := h.exists_fills hkeys
  intro rest
  have hobject : object members ++ rest =
      .objectOpen :: (separated (members.map member) ++ .objectClose :: rest) := by
    rw [object, List.cons_append, List.cons_append, List.append_assoc]
    rfl
  rw [hobject]
  cases members with
  | nil =>
    cases hfills
    rw [List.map_nil, separated, List.nil_append, record, hclose]
  | cons first more =>
    have hlength := length_le_length_separated ((first :: more).map member)
    have hread (fuel : Nat) (hfuel : (first :: more).length ≤ fuel) :
        fields.members fuel fields.unread (separated ((first :: more).map member) ++
          .objectClose :: rest) = .ok (a, rest) :=
      members_of_fills hfills hclose (by simp) hfuel
    obtain ⟨more', hcons⟩ : ∃ more', separated ((first :: more).map member) ++
        .objectClose :: rest = .text (some first.1) :: more' := by
      cases more with
      | nil => exact ⟨_, rfl⟩
      | cons next last => exact ⟨_, rfl⟩
    have hfuel : (first :: more).length ≤ (Token.text (some first.1) :: more').length := by
      rw [List.length_map] at hlength
      have hclose : 0 < (Token.objectClose :: rest).length := Nat.succ_pos _
      rw [← hcons, List.length_append]
      omega
    rw [hcons] at hread ⊢
    exact hread _ hfuel

end Fields

/-! ## Reading without a closer look -/

namespace Reader

variable {α β γ δ : Type} {loose read : Reader α} {strict : Reader β} {R S : α → β → Prop}
  {tokens rest : List Token} {fuel : Nat}

/-- What the strict reader accepts is accepted by the loose one as well, and their values are
related. -/
def Refines (R : α → β → Prop) (loose : Reader α) (strict : Reader β) : Prop :=
  ∀ tokens b rest, strict tokens = .ok (b, rest) → ∃ a, loose tokens = .ok (a, rest) ∧ R a b

/-- What a mapped reader gives was made of what is read underneath. -/
theorem exists_of_map {f : α → β} {b : β} (h : map f read tokens = .ok (b, rest)) :
    ∃ a, read tokens = .ok (a, rest) ∧ b = f a := by
  unfold map at h
  split at h
  · rename_i hread
    cases h
    exact ⟨_, hread, rfl⟩
  · cases h

namespace Refines

/-- A reader refines itself, with equal values. -/
theorem refl (read : Reader α) : Refines Eq read read := fun _ b _ h => ⟨b, h, rfl⟩

/-- The relation between the values may be weakened. -/
theorem mono (h : Refines R loose strict) (himp : ∀ a b, R a b → S a b) :
    Refines S loose strict := by
  intro tokens b rest hstrict
  obtain ⟨a, hloose, hab⟩ := h tokens b rest hstrict
  exact ⟨a, hloose, himp a b hab⟩

/-- Two readers whose values are made into something else, in related ways. -/
theorem map {f : α → γ} {g : β → δ} {T : γ → δ → Prop} (h : Refines R loose strict)
    (hmap : ∀ a b, R a b → T (f a) (g b)) : Refines T (map f loose) (map g strict) := by
  intro tokens d rest hstrict
  obtain ⟨b, hread, rfl⟩ := exists_of_map hstrict
  obtain ⟨a, hloose, hab⟩ := h tokens b rest hread
  exact ⟨f a, by rw [Reader.map, hloose], hmap a b hab⟩

/-- Only the loose reader makes something of its value. -/
theorem map_left {f : α → γ} {T : γ → β → Prop} (h : Refines R loose strict)
    (hmap : ∀ a b, R a b → T (f a) b) : Refines T (Reader.map f loose) strict := by
  intro tokens b rest hstrict
  obtain ⟨a, hloose, hab⟩ := h tokens b rest hstrict
  exact ⟨f a, by rw [Reader.map, hloose], hmap a b hab⟩

/-- A value that may still be refused was read before. -/
theorem refine {accept : β → Except String γ} (h : Refines R loose strict) :
    Refines (fun a c => ∃ b, R a b ∧ accept b = .ok c) loose (refine accept strict) := by
  intro tokens c rest hstrict
  unfold Reader.refine at hstrict
  split at hstrict
  · rename_i b rest' hread
    split at hstrict
    · rename_i haccept
      cases hstrict
      obtain ⟨a, hloose, hab⟩ := h tokens b _ hread
      exact ⟨a, hloose, b, hab, haccept⟩
    · cases hstrict
  · cases hstrict

/-- Elements are related one by one. -/
theorem elements (h : Refines R loose strict) :
    Refines (List.Forall₂ R) (elements loose fuel) (elements strict fuel) := by
  induction fuel with
  | zero =>
    intro tokens b rest hstrict
    cases hstrict
  | succ fuel ih =>
    intro tokens b rest hstrict
    rw [Reader.elements] at hstrict
    split at hstrict
    · cases hstrict
    · rename_i first more hread
      obtain ⟨others, hothers, rfl⟩ := exists_of_map hstrict
      obtain ⟨a, hloose, hab⟩ := h tokens first _ hread
      obtain ⟨as, hlooses, habs⟩ := ih more others rest hothers
      refine ⟨a :: as, ?_, .cons hab habs⟩
      rw [Reader.elements, hloose]
      dsimp only
      rw [Reader.map, hlooses]
    · rename_i last more hread
      cases hstrict
      obtain ⟨a, hloose, hab⟩ := h tokens last _ hread
      refine ⟨[a], ?_, .cons hab .nil⟩
      rw [Reader.elements, hloose]
    · cases hstrict

/-- Arrays are related element by element. -/
theorem list (h : Refines R loose strict) :
    Refines (List.Forall₂ R) (list loose) (list strict) := by
  intro tokens b rest hstrict
  unfold Reader.list at hstrict
  split at hstrict
  · cases hstrict
    exact ⟨[], rfl, .nil⟩
  · rename_i more hne
    obtain ⟨as, hloose, habs⟩ := h.elements more b rest hstrict
    refine ⟨as, ?_, habs⟩
    rw [Reader.list]
    · exact hloose
    · exact hne
  · cases hstrict

/-- A whole text is accepted by the loose reader if it is by the strict one. -/
theorem parse {text : String} {b : β} (h : Refines R loose strict)
    (hstrict : parse strict text = .ok b) : ∃ a, Json.parse loose text = .ok a ∧ R a b := by
  unfold Json.parse at hstrict ⊢
  split at hstrict
  · cases hstrict
  · rename_i hread
    cases hstrict
    obtain ⟨a, hloose, hab⟩ := h _ _ _ hread
    refine ⟨a, ?_, hab⟩
    rw [hloose]
  · cases hstrict

end Refines

end Reader

namespace Fields

variable {σ τ α β : Type} {fields : Fields σ α} {fields' : Fields τ β} {S : σ → τ → Prop}
  {T : α → β → Prop} {slots : σ} {slots' : τ} {key : String} {fuel : Nat}

/-- The same required fields in the same order, each strict reader refining the loose one. Slots are
related if the same ones are filled and what is in them is related. -/
inductive Refines : {σ α τ β : Type} → Fields σ α → Fields τ β → (σ → τ → Prop) →
    (α → β → Prop) → Prop
  | nil : Refines .nil .nil (fun _ _ => True) (fun _ _ => True)
  | cons {σ α τ β γ δ : Type} {fields : Fields σ α} {fields' : Fields τ β} {S : σ → τ → Prop}
    {T : α → β → Prop} {R : γ → δ → Prop} {loose : Reader γ} {strict : Reader δ} (name : String) :
    Reader.Refines R loose strict → Refines fields fields' S T →
    Refines (.cons (required name loose) fields) (.cons (required name strict) fields')
      (fun s t => Option.Rel R s.1 t.1 ∧ S s.2 t.2) (fun a b => R a.1 b.1 ∧ T a.2 b.2)

namespace Refines

/-- Before anything is read the slots are related. -/
theorem unread (h : fields.Refines fields' S T) : S fields.unread fields'.unread := by
  induction h with
  | nil => trivial
  | cons name _ _ ih => exact ⟨.none, ih⟩

/-- Slots that are related are closed to related records, and the loose one is closed if the strict
one is. -/
theorem close (h : fields.Refines fields' S T) (hslots : S slots slots') {b : β}
    (hclose : fields'.close slots' = .ok b) : ∃ a, fields.close slots = .ok a ∧ T a b := by
  induction h with
  | nil => exact ⟨(), rfl, trivial⟩
  | cons name _ _ ih =>
    obtain ⟨slot, slots⟩ := slots
    obtain ⟨slot', slots'⟩ := slots'
    obtain ⟨hfirst, hrest⟩ := hslots
    simp only [Fields.close, required, Option.or_none] at hclose ⊢
    cases hfirst with
    | none => cases hclose
    | some hfilled =>
      dsimp only at hclose ⊢
      split at hclose
      · rename_i hstrict
        cases hclose
        obtain ⟨a, hloose, hab⟩ := ih hrest hstrict
        exact ⟨_, by rw [hloose], hfilled, hab⟩
      · cases hclose

/-- The same keys are known. -/
theorem offer_eq_none (h : fields.Refines fields' S T) (hoffer : fields'.offer key slots' = none) :
    fields.offer key slots = none := by
  induction h with
  | nil => rfl
  | @cons _ _ _ _ _ _ fields fields' _ _ _ loose strict name _ _ ih =>
    obtain ⟨slot, slots⟩ := slots
    obtain ⟨slot', slots'⟩ := slots'
    by_cases hkey : key = name
    · rw [offer_of_eq hkey] at hoffer
      cases slot' with
      | none => cases hoffer
      | some value => cases hoffer
    · rw [offer_of_ne hkey] at hoffer ⊢
      cases hrest : fields'.offer key slots' with
      | none => rw [ih hrest]
      | some answer =>
        rw [hrest] at hoffer
        cases answer with
        | error fault => cases hoffer
        | ok read => cases hoffer

/-- A key that the strict fields take is taken by the loose ones, with a reader that it refines. -/
theorem offer (h : fields.Refines fields' S T) (hslots : S slots slots') {strict : Reader τ}
    (hoffer : fields'.offer key slots' = some (.ok strict)) :
    ∃ loose, fields.offer key slots = some (.ok loose) ∧ Reader.Refines S loose strict := by
  induction h with
  | nil => cases hoffer
  | @cons _ _ _ _ _ _ fields fields' _ _ _ loose strict name hread _ ih =>
    obtain ⟨slot, slots⟩ := slots
    obtain ⟨slot', slots'⟩ := slots'
    obtain ⟨hfirst, hothers⟩ := hslots
    by_cases hkey : key = name
    · rw [offer_of_eq hkey] at hoffer ⊢
      cases hfirst with
      | some hfilled => cases hoffer
      | none =>
        cases hoffer
        exact ⟨_, rfl, hread.map fun a b hab => ⟨.some hab, hothers⟩⟩
    · rw [offer_of_ne hkey] at hoffer ⊢
      cases hrest : fields'.offer key slots' with
      | none =>
        rw [hrest] at hoffer
        cases hoffer
      | some answer =>
        rw [hrest] at hoffer
        cases answer with
        | error fault => cases hoffer
        | ok strict =>
          cases hoffer
          obtain ⟨loose, hloose, hrefines⟩ := ih hothers hrest
          refine ⟨Reader.map (fun slots => (slot, slots)) loose, ?_, hrefines.map fun s t hst => ?_⟩
          · rw [hloose]
          · exact ⟨hfirst, hst⟩

/-- A key that the strict fields pass over is passed over by the loose ones too. -/
theorem valueOf (h : fields.Refines fields' S T) (hslots : S slots slots') {strict : Reader τ}
    (hstrict : fields'.valueOf key slots' = .ok strict) :
    ∃ loose, fields.valueOf key slots = .ok loose ∧ Reader.Refines S loose strict := by
  rw [Fields.valueOf] at hstrict ⊢
  cases hoffer : fields'.offer key slots' with
  | none =>
    rw [hoffer] at hstrict
    cases hstrict
    rw [h.offer_eq_none hoffer]
    exact ⟨_, rfl, (Reader.Refines.refl _).map fun _ _ _ => hslots⟩
  | some answer =>
    rw [hoffer] at hstrict
    cases hstrict
    obtain ⟨loose, hloose, hrefines⟩ := h.offer hslots hoffer
    rw [hloose]
    exact ⟨loose, rfl, hrefines⟩

/-- The members of an object are related, in whatever order they stand. -/
theorem members (h : fields.Refines fields' S T) (hslots : S slots slots') :
    Reader.Refines T (fields.members fuel slots) (fields'.members fuel slots') := by
  induction fuel generalizing slots slots' with
  | zero =>
    intro tokens b rest hstrict
    cases hstrict
  | succ fuel ih =>
    intro tokens b rest hstrict
    obtain ⟨key, more, rfl⟩ : ∃ key more, tokens = .text (some key) :: more := by
      unfold Fields.members at hstrict
      split at hstrict
      · cases hstrict
      · exact ⟨_, _, rfl⟩
      · cases hstrict
    rw [members_cons] at hstrict ⊢
    split at hstrict
    · cases hstrict
    rename_i strict hvalue
    split at hstrict
    · cases hstrict
    rename_i more' hmark
    obtain ⟨loose, hloose, hrefines⟩ := h.valueOf hslots hvalue
    rw [hloose]
    dsimp only
    split at hstrict
    · cases hstrict
    · rename_i next after hread
      obtain ⟨next', hnext, hslots'⟩ := hrefines _ _ _ hread
      rw [hnext]
      exact ih hslots' after b rest hstrict
    · rename_i next after hread
      obtain ⟨next', hnext, hslots'⟩ := hrefines _ _ _ hread
      rw [hnext]
      split at hstrict
      · rename_i hclose
        cases hstrict
        obtain ⟨a, ha, hab⟩ := h.close hslots' hclose
        refine ⟨a, ?_, hab⟩
        dsimp only
        rw [ha]
      · cases hstrict
    · cases hstrict

/-- The items of an array are related, in the order of the fields. -/
theorem items (h : fields.Refines fields' S T) (first : Bool) :
    Reader.Refines T (fields.items first) (fields'.items first) := by
  induction h generalizing first with
  | nil => exact (Reader.Refines.refl _).mono fun _ _ _ => trivial
  | @cons _ _ _ _ _ _ fields fields' _ _ _ loose strict name hread _ ih =>
    intro tokens b rest hstrict
    have hne : tokens.head? ≠ some .arrayClose := by
      intro heq
      obtain ⟨more, rfl⟩ := List.head?_eq_some_iff.mp heq
      cases hstrict
    rw [items_of_ne hne] at hstrict ⊢
    split at hstrict
    · cases hstrict
    split at hstrict
    · cases hstrict
    rename_i value more hvalue
    obtain ⟨a, hloose, hab⟩ := hread _ _ _ hvalue
    obtain ⟨others, hothers, rfl⟩ := Reader.exists_of_map hstrict
    obtain ⟨as, hitems, habs⟩ := ih false more others rest hothers
    refine ⟨(a, as), ?_, hab, habs⟩
    dsimp only [required]
    rw [hloose]
    dsimp only
    rw [Reader.map, hitems]

/-- In either form of a record. -/
theorem record (h : fields.Refines fields' S T) :
    Reader.Refines T fields.record fields'.record := by
  intro tokens b rest hstrict
  unfold Fields.record at hstrict
  split at hstrict
  · split at hstrict
    · rename_i hclose
      cases hstrict
      obtain ⟨a, ha, hab⟩ := h.close h.unread hclose
      refine ⟨a, ?_, hab⟩
      rw [Fields.record, ha]
    · cases hstrict
  · rename_i more hne
    obtain ⟨a, ha, hab⟩ := h.members h.unread more b rest hstrict
    refine ⟨a, ?_, hab⟩
    rw [Fields.record]
    · exact ha
    · exact hne
  · rename_i more
    exact h.items true more b rest hstrict
  · cases hstrict

end Refines

end Fields

end Enclaves.Json
