import Enclaves.History
import Enclaves.Image
import Mathlib.Data.List.Induction

/-!
# What a history binds

A history is one digest, and yet it commits to the whole of what led to it: the three segments of
the image, as far as zero filling lets them be told apart, and every event with its peer, in order.
Two computations that end in the same history had the same image and the same events, or else two
different byte strings among those that they hashed have the same hash (`Collides`).

Nothing is assumed of the hash. `hashed` lists what a computation hashes, so a collision is always
one between two named byte strings and never one that merely exists.

No tag separates the preimages of measurements from those of events. Their lengths do: the former
are 24 bytes longer than whole pages, the latter have 135 or 138 bytes.
-/

namespace Enclaves

/-- Two different byte strings among these have the same hash. -/
def Collides (inputs : List Bytes) : Prop :=
  ∃ a ∈ inputs, ∃ b ∈ inputs, a ≠ b ∧ Sha3.hash a = Sha3.hash b

/-- A collision among some inputs is one among more. -/
theorem Collides.mono {inputs more : List Bytes} (h : Collides inputs)
    (hsubset : inputs ⊆ more) : Collides more := by
  obtain ⟨a, ha, b, hb, hne, hhash⟩ := h
  exact ⟨a, hsubset ha, b, hsubset hb, hne, hhash⟩

/-- A digest that two byte strings share shows that they are one, or it shows a collision. -/
theorem Digest.eq_or_collides {inputs : List Bytes} {a b : Bytes}
    (h : Digest.ofPreimage a = Digest.ofPreimage b) (ha : a ∈ inputs) (hb : b ∈ inputs) :
    a = b ∨ Collides inputs := by
  by_cases heq : a = b
  · exact .inl heq
  · exact .inr ⟨a, ha, b, hb, heq, congrArg Digest.block h⟩

/-! ## Preimages of measurements -/

/-- Sizes that fit their eight bytes can be read off a header. -/
theorem sizesHeader_inj {sizes sizes' : List Nat} (hlength : sizes.length = sizes'.length)
    (hfit : ∀ n ∈ sizes, n < addressLimit) (hfit' : ∀ n ∈ sizes', n < addressLimit)
    (h : sizesHeader sizes = sizesHeader sizes') : sizes = sizes' := by
  induction sizes generalizing sizes' with
  | nil => rw [List.eq_nil_of_length_eq_zero hlength.symm]
  | cons n rest ih =>
    obtain ⟨n', rest', rfl⟩ := List.exists_cons_of_length_eq_add_one hlength.symm
    simp only [List.length_cons, Nat.add_right_cancel_iff] at hlength
    rw [List.forall_mem_cons] at hfit hfit'
    obtain ⟨hhead, htail⟩ := List.append_inj h (by simp)
    rw [Bytes.littleEndian_inj hfit.1 hfit'.1 hhead, ih hlength hfit.2 hfit'.2 htail]

/-- Once the sizes are known, so is where each segment ends. -/
theorem map_pagePadded_inj {segments segments' : List Bytes}
    (hsizes : segments.map (fun s => pageRoundUp s.length) =
      segments'.map fun s => pageRoundUp s.length)
    (h : segments.flatMap pagePadded = segments'.flatMap pagePadded) :
    segments.map pagePadded = segments'.map pagePadded := by
  induction segments generalizing segments' with
  | nil => rw [List.map_eq_nil_iff.mp hsizes.symm]
  | cons s rest ih =>
    obtain ⟨s', rest', rfl, hsize, hsizes'⟩ := List.map_eq_cons_iff.mp hsizes.symm
    obtain ⟨hhead, htail⟩ := List.append_inj h (by rw [length_pagePadded, length_pagePadded, hsize])
    rw [List.map_cons, List.map_cons, hhead, ih hsizes'.symm htail]

namespace Image

/-- An image whose segments have sizes of 64 bits, which is as many as a size can have. -/
def Addressable (image : Image) : Prop :=
  ∀ segment ∈ image.segments, pageRoundUp segment.length < addressLimit

variable {image image' : Image}

/-- What is hashed of an image determines its segments, filled up. -/
theorem map_pagePadded_of_preimage (himage : image.Addressable) (himage' : image'.Addressable)
    (h : image.preimage = image'.preimage) :
    image.segments.map pagePadded = image'.segments.map pagePadded := by
  obtain ⟨hheader, hbody⟩ := List.append_inj h (by simp [sizesHeader, segments])
  refine map_pagePadded_inj (sizesHeader_inj (by simp [segments]) ?_ ?_ hheader) hbody
  · exact List.forall_mem_map.mpr himage
  · exact List.forall_mem_map.mpr himage'

/-- A preimage is its header of three sizes and the pages of the image. -/
theorem length_preimage (image : Image) :
    image.preimage.length = 24 + image.pages * pageSize := by
  simp only [preimage, segments, pages, sizesHeader, List.map_cons, List.map_nil,
    List.flatMap_cons, List.flatMap_nil, List.length_append, Bytes.length_littleEndian,
    List.length_nil, length_pagePadded, pageRoundUp, List.foldl_cons, List.foldl_nil, Nat.add_mul]
  omega

end Image

/-! ## Preimages of events -/

/-- The tags of two events differ. -/
theorem Event.tag_inj {event event' : Event} (h : event.tag = event'.tag) : event = event' := by
  cases event <;> cases event' <;> first | rfl | cases h

/-- The preimage of an event is two digests and the tag. -/
theorem length_historyPreimage (history peer : Digest) (event : Event) :
    (historyPreimage history peer event).length = 128 + event.tag.length := by
  simp only [historyPreimage, List.length_append, Digest.length_bytes]

/-- What is hashed of an event determines the history before it, the peer and the event. -/
theorem historyPreimage_inj {history history' peer peer' : Digest} {event event' : Event}
    (h : historyPreimage history peer event = historyPreimage history' peer' event') :
    history = history' ∧ peer = peer' ∧ event = event' := by
  rw [historyPreimage, historyPreimage, List.append_assoc, List.append_assoc] at h
  obtain ⟨hhistory, hrest⟩ := List.append_inj h (by simp)
  obtain ⟨hpeer, htag⟩ := List.append_inj hrest (by simp)
  exact ⟨Digest.ext_bytes hhistory, Digest.ext_bytes hpeer, Event.tag_inj htag⟩

/-- No measurement hashes what an event hashes. -/
theorem Image.preimage_ne_historyPreimage (image : Image) (history peer : Digest) (event : Event) :
    image.preimage ≠ historyPreimage history peer event := by
  intro h
  have hlength := congrArg List.length h
  rw [image.length_preimage, length_historyPreimage, pageSize] at hlength
  cases event <;> simp only [Event.tag, List.length_cons, List.length_nil] at hlength <;> omega

/-! ## Computations -/

/-- What the steps of a replay hash, in order. -/
def historyPreimages (start : Digest) : List (Event × Digest) → List Bytes
  | [] => []
  | (event, peer) :: rest =>
    historyPreimage start peer event :: historyPreimages (extendHistory start peer event) rest

/-- What is hashed on the way from an image to a history. -/
def hashed (image : Image) (events : List (Event × Digest)) : List Bytes :=
  image.preimage :: historyPreimages image.measure events

/-- The preimages of two histories in a row. -/
theorem historyPreimages_append (start : Digest) (first rest : List (Event × Digest)) :
    historyPreimages start (first ++ rest) =
      historyPreimages start first ++ historyPreimages (replayHistory start first) rest := by
  induction first generalizing start with
  | nil => rfl
  | cons head first ih =>
    rw [List.cons_append, historyPreimages, historyPreimages, ih, List.cons_append]
    rfl

/-- A computation that goes on hashes what it hashed so far, and then the rest. -/
theorem hashed_append (image : Image) (first rest : List (Event × Digest)) :
    hashed image (first ++ rest) =
      hashed image first ++ historyPreimages (replayHistory image.measure first) rest := by
  rw [hashed, historyPreimages_append]
  rfl

/-- Every computation hashes the image first. -/
theorem preimage_mem_hashed (image : Image) (events : List (Event × Digest)) :
    image.preimage ∈ hashed image events := List.mem_cons_self

/-- A longer computation hashes all that a shorter one does. -/
theorem hashed_subset {image : Image} {first events : List (Event × Digest)}
    (h : first <+: events) : hashed image first ⊆ hashed image events := by
  obtain ⟨rest, rfl⟩ := h
  rw [hashed_append]
  exact List.subset_append_left _ _

variable {image image' : Image}

/-- A computation that ends in an event hashes that event last. -/
theorem historyPreimage_mem_hashed (image : Image) (events : List (Event × Digest))
    (last : Event × Digest) :
    historyPreimage (replayHistory image.measure events) last.2 last.1 ∈
      hashed image (events ++ [last]) := by
  rw [hashed_append]
  exact List.mem_append_right _ List.mem_cons_self

/-- The last event is hashed with all that came before it. -/
theorem replayHistory_concat (start : Digest) (events : List (Event × Digest))
    (last : Event × Digest) :
    replayHistory start (events ++ [last]) =
      .ofPreimage (historyPreimage (replayHistory start events) last.2 last.1) :=
  replayHistory_append start events [last]

/-- The two computations are the same, or there is a collision. -/
def Bound (image image' : Image) (events events' : List (Event × Digest)) : Prop :=
  events = events' ∧ image.segments.map pagePadded = image'.segments.map pagePadded ∨
    Collides (hashed image events ++ hashed image' events')

/-- What two measurements bind. -/
theorem bound_of_measure (himage : image.Addressable) (himage' : image'.Addressable)
    (h : image.measure = image'.measure) : Bound image image' [] [] := by
  refine (Digest.eq_or_collides h ?_ ?_).imp_left fun heq => ?_
  · exact List.mem_append_left _ (preimage_mem_hashed _ _)
  · exact List.mem_append_right _ (preimage_mem_hashed _ _)
  · exact ⟨rfl, Image.map_pagePadded_of_preimage himage himage' heq⟩

/-- A measurement that is the history after an event shows a collision. -/
theorem collides_of_measure {events : List (Event × Digest)} {last : Event × Digest}
    (h : image.measure = replayHistory image'.measure (events ++ [last])) :
    Collides (hashed image [] ++ hashed image' (events ++ [last])) := by
  rw [replayHistory_concat] at h
  refine (Digest.eq_or_collides h ?_ ?_).resolve_left (image.preimage_ne_historyPreimage _ _ _)
  · exact List.mem_append_left _ (preimage_mem_hashed _ _)
  · exact List.mem_append_right _ (historyPreimage_mem_hashed _ _ _)

/-- What two computations bind does not depend on their order. -/
theorem Bound.symm {events events' : List (Event × Digest)}
    (h : Bound image image' events events') : Bound image' image events' events := by
  rcases h with ⟨hevents, hsegments⟩ | hcollides
  · exact .inl ⟨hevents.symm, hsegments.symm⟩
  · exact .inr (hcollides.mono (List.append_subset.mpr
      ⟨List.subset_append_right _ _, List.subset_append_left _ _⟩))

/-- One event more at the end of both. -/
theorem Bound.concat {events events' : List (Event × Digest)} {last last' : Event × Digest}
    (hbefore : replayHistory image.measure events = replayHistory image'.measure events' →
      Bound image image' events events')
    (h : replayHistory image.measure (events ++ [last]) =
      replayHistory image'.measure (events' ++ [last'])) :
    Bound image image' (events ++ [last]) (events' ++ [last']) := by
  rw [replayHistory_concat, replayHistory_concat] at h
  have hcases := Digest.eq_or_collides h
    (List.mem_append_left (hashed image' (events' ++ [last']))
      (historyPreimage_mem_hashed image events last))
    (List.mem_append_right _ (historyPreimage_mem_hashed image' events' last'))
  rcases hcases with heq | hcollides
  · obtain ⟨hhistory, hpeer, hevent⟩ := historyPreimage_inj heq
    have hlast : last = last' := Prod.ext hevent hpeer
    rcases hbefore hhistory with ⟨hevents, hsegments⟩ | hcollides
    · exact .inl ⟨by rw [hevents, hlast], hsegments⟩
    · refine .inr (hcollides.mono (List.append_subset.mpr ⟨?_, ?_⟩))
      · exact List.subset_append_of_subset_left _ (hashed_subset (List.prefix_append _ _))
      · exact List.subset_append_of_subset_right _
          (hashed_subset (List.prefix_append _ _))
  · exact .inr hcollides

/-- Histories are compared from their ends: the last events first, then what lies before them. -/
theorem bound_of_replayHistory (himage : image.Addressable) (himage' : image'.Addressable)
    (events events' : List (Event × Digest))
    (h : replayHistory image.measure events = replayHistory image'.measure events') :
    Bound image image' events events' := by
  induction events using List.reverseRecOn generalizing events' with
  | nil =>
    cases events' using List.reverseRecOn with
    | nil => exact bound_of_measure himage himage' h
    | append_singleton events' last' => exact .inr (collides_of_measure h)
  | append_singleton events last ih =>
    cases events' using List.reverseRecOn with
    | nil => exact Bound.symm (.inr (collides_of_measure h.symm))
    | append_singleton events' last' => exact .concat (ih events') h

/-- Two images and two sequences of events that lead to the same history agree, the images segment
by segment after filling up, or two of the byte strings hashed on the two ways collide. So, short of
a collision, a history never comes back to a value it had before, the history of a prefix is not
that of the whole, and a connection never passes for a disconnection, whatever follows it. -/
theorem history_binds (himage : image.Addressable) (himage' : image'.Addressable) :
    (∀ events events' : List (Event × Digest),
      replayHistory image.measure events = replayHistory image'.measure events' →
        events = events' ∧ image.segments.map pagePadded = image'.segments.map pagePadded ∨
          Collides (hashed image events ++ hashed image' events')) ∧
    (∀ (events : List (Event × Digest)) (i j : Nat), i < j → j ≤ events.length →
      replayHistory image.measure (events.take i) = replayHistory image.measure (events.take j) →
        Collides (hashed image (events.take j))) ∧
    ∀ (events events' : List (Event × Digest)) (k : Nat) (peer peer' : Digest),
      events[k]? = some (.connect, peer) → events'[k]? = some (.disconnect, peer') →
      replayHistory image.measure events = replayHistory image'.measure events' →
        Collides (hashed image events ++ hashed image' events') := by
  refine ⟨bound_of_replayHistory himage himage', ?_, ?_⟩
  · intro events i j hlt hle h
    rcases bound_of_replayHistory himage himage _ _ h with ⟨hsame, -⟩ | hcollides
    · have hlength := congrArg List.length hsame
      rw [List.length_take, List.length_take] at hlength
      omega
    · refine hcollides.mono (List.append_subset.mpr ⟨hashed_subset ?_, fun _ h => h⟩)
      exact List.take_prefix_take_left (Nat.le_of_lt hlt)
  · intro events events' k peer peer' hconnect hdisconnect h
    refine (bound_of_replayHistory himage himage' events events' h).resolve_left ?_
    rintro ⟨rfl, -⟩
    rw [hconnect] at hdisconnect
    cases hdisconnect

/-- A zero at the end of the application does not show in a history: two images that differ, and
that agree once their segments are filled up. -/
theorem history_binds_filled :
    let image : Image := ⟨[1], [2], [3]⟩
    let filled : Image := ⟨[1], [2], [3, 0]⟩
    let events : List (Event × Digest) := [(.connect, ⟨⟨List.replicate 64 9, rfl⟩⟩)]
    image.Addressable ∧ filled.Addressable ∧ image ≠ filled ∧
      replayHistory image.measure events = replayHistory filled.measure events ∧
      (image.segments.map pagePadded = filled.segments.map pagePadded ∨
        Collides (hashed image events ++ hashed filled events)) := by
  intro image filled events
  have hroundUp : pageRoundUp 1 < addressLimit := by decide
  have himage : image.Addressable := by
    simpa [Image.Addressable, Image.segments, image] using hroundUp
  have hfilled : filled.Addressable := by
    simpa [Image.Addressable, Image.segments, filled] using ⟨hroundUp, by decide⟩
  have hpadded : pagePadded [3] = pagePadded [3, 0] := rfl
  have hmeasure : image.measure = filled.measure := by
    simp only [Image.measure, Image.preimage, Image.segments, image, filled, List.map_cons,
      List.flatMap_cons, hpadded]
    rfl
  have hreplay : replayHistory image.measure events = replayHistory filled.measure events := by
    rw [hmeasure]
  refine ⟨himage, hfilled, by decide, hreplay, ?_⟩
  exact ((history_binds himage hfilled).1 events events hreplay).imp_left And.right

end Enclaves
