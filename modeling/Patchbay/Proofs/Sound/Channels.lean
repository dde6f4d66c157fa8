import Patchbay.Proofs.Sound.Riff

/-!
# Channels in sound files

Dealing out frames to channels undoes what putting the channels into frames does, except that all
channels are as long as the longest one that was given. This one counts even if there is no place for it
in the file. The samples are only moved around, so they keep all their bits, in any container that gives
back what it is given.
-/

namespace Patchbay.Wav

/-- A channel followed by as much silence as it lacks. -/
def padded (frames : Nat) (channel : Buffer Sample) : Buffer Sample :=
  channel ++ List.replicate (frames - channel.length) .zero

/-- The length of the longest channel. -/
def longest (channels : List (Buffer Sample)) : Nat := ((channels.map List.length).max?).getD 0

/-! ### Counting frames -/

theorem frameCount_eq_longest (channels : List (Buffer Sample)) :
    frameCount channels = longest channels := by
  cases channels with
  | nil => rfl
  | cons first rest =>
    rw [longest, List.map_cons, List.max?_cons', Option.getD_some, List.foldl_map, frameCount,
      List.foldl_cons, Nat.zero_max]

theorem length_le_longest {channels : List (Buffer Sample)} {channel : Buffer Sample}
    (h : channel ∈ channels) : channel.length ≤ longest channels :=
  List.le_max?_getD_of_mem (List.mem_map_of_mem h)

/-- There are as many frames as fit into the samples. -/
theorem frames_of_samples (frames : Nat) {width : Nat} (h : 0 < width) :
    (frames * width + width - 1) / width = frames := by
  rw [Nat.add_sub_assoc h, Nat.mul_comm, Nat.mul_add_div h, Nat.div_eq_of_lt (Nat.sub_one_lt h.ne'),
    Nat.add_zero]

/-! ### Frames and channels -/

theorem length_interleave (frames : Nat) (channels : List (Buffer Sample)) :
    (interleave frames channels).length = frames * channels.length := by
  induction frames generalizing channels with
  | zero => exact (Nat.zero_mul _).symm
  | succ frames ih =>
    rw [interleave, List.length_append, ih, List.length_map, List.length_map, Nat.succ_mul,
      Nat.add_comm]

/-- A frame is put in front of all channels, one sample each. -/
theorem putFrame_map (channels : List (Buffer Sample)) (head : Buffer Sample → Sample)
    (tail : Buffer Sample → Buffer Sample) :
    putFrame (channels.map head) (channels.map tail) =
      channels.map fun channel => head channel :: tail channel := by
  induction channels with
  | nil => rfl
  | cons channel channels ih => rw [List.map_cons, List.map_cons, putFrame, ih, List.map_cons]

theorem padded_succ (frames : Nat) (channel : Buffer Sample) :
    channel.headD .zero :: padded frames channel.tail = padded (frames + 1) channel := by
  cases channel with
  | nil => rfl
  | cons sample rest => rw [padded, padded, List.length_cons, Nat.add_sub_add_right]; rfl

/-- Separating the channels undoes putting them into frames, up to the silence at their ends. -/
theorem separate_interleave {frames : Nat} {channels : List (Buffer Sample)}
    (h : ∀ channel ∈ channels, channel.length ≤ frames) :
    separate channels.length frames (interleave frames channels) = channels.map (padded frames) := by
  induction frames generalizing channels with
  | zero =>
    rw [separate, ← List.map_const']
    refine List.map_congr_left fun channel hchannel => ?_
    rw [List.length_eq_zero_iff.mp (Nat.le_zero.mp (h channel hchannel))]
    rfl
  | succ frames ih =>
    have hframe : (channels.map fun channel => channel.headD .zero).length = channels.length :=
      List.length_map _
    have htails : ∀ channel ∈ channels.map List.tail, channel.length ≤ frames := by
      intro channel hchannel
      obtain ⟨whole, hwhole, rfl⟩ := List.mem_map.mp hchannel
      rw [List.length_tail]
      exact Nat.sub_le_of_le_add (h whole hwhole)
    have hrest := ih htails
    rw [List.length_map, List.map_map] at hrest
    rw [interleave, separate, List.take_left' hframe, List.drop_left' hframe, hrest, putFrame_map]
    exact List.map_congr_left fun channel _ => padded_succ frames channel

/-- The channels of a file are those that were given; missing ones are empty. -/
theorem fitChannels_eq (width : Nat) (channels : List (Buffer Sample)) :
    fitChannels width channels = (List.range width).map fun place => channels.getD place [] := by
  apply List.ext_getElem
  · rw [fitChannels, List.length_append, List.length_take, List.length_replicate, List.length_map,
      List.length_range]
    omega
  · intro place hfit hplace
    rw [List.length_map, List.length_range] at hplace
    rw [List.getElem_map, List.getElem_range, List.getD_eq_getElem?_getD]
    rcases Nat.lt_or_ge place channels.length with hgiven | hmissing
    · have hleft : place < (channels.take width).length := by
        rw [List.length_take]
        omega
      rw [List.getElem?_eq_getElem hgiven]
      exact (List.getElem_append_left hleft).trans List.getElem_take
    · have hright : (channels.take width).length ≤ place := by
        rw [List.length_take]
        omega
      rw [List.getElem?_eq_none hmissing]
      exact (List.getElem_append_right hright).trans (List.getElem_replicate _)

theorem length_fitChannels (width : Nat) (channels : List (Buffer Sample)) :
    (fitChannels width channels).length = width := by
  rw [fitChannels_eq, List.length_map, List.length_range]

/-! ### Through a container -/

/-- Samples of 32 bits go into a file as they are. -/
theorem map_store (samples : Buffer Sample) : samples.map (store 32) = samples.map .float :=
  List.map_congr_left fun _ _ => if_pos rfl

theorem map_sample (bits : Nat) (samples : Buffer Sample) :
    (samples.map Stored.float).map (Stored.sample bits) = samples := by
  rw [List.map_map]
  exact List.map_id samples

/-- What a container gives back is a file with the channels that were given: every channel of the layout
is as long as the longest channel given, with silence behind the samples of its own; one that was not
given is silent, and no others are kept. -/
theorem Container.read_of_write (container : Container) {spec : WavSpec} {channels : List (Buffer Sample)}
    (hbits : spec.bits = 32) (hchannels : 0 < spec.channels)
    (hkeeps : container.Keeps spec ((samplesInOrder spec channels).map .float)) :
    ∃ bytes, container.write spec channels = .ok bytes ∧
      container.read bytes = .ok ((List.range spec.channels).map fun place =>
        padded (longest channels) (channels.getD place []), spec) := by
  have hfits : ∀ channel ∈ fitChannels spec.channels channels, channel.length ≤ longest channels := by
    intro channel hchannel
    rcases List.mem_append.mp hchannel with hgiven | hmissing
    · exact length_le_longest (List.mem_of_mem_take hgiven)
    · rw [List.eq_of_mem_replicate hmissing]
      exact Nat.zero_le _
  have hlength : (samplesInOrder spec channels).length = longest channels * spec.channels := by
    rw [samplesInOrder, length_interleave, length_fitChannels, frameCount_eq_longest]
  have hseparate := separate_interleave hfits
  rw [length_fitChannels] at hseparate
  obtain ⟨bytes, hpack, hunpack⟩ := hkeeps
  refine ⟨bytes, ?_, ?_⟩
  · rw [write, hbits, map_store, hpack]
  · rw [read, hunpack]
    change Except.ok (separate (max 1 spec.channels) _ _, spec) = _
    rw [max_eq_right hchannels, map_sample, List.length_map, hlength, frames_of_samples _ hchannels,
      samplesInOrder, frameCount_eq_longest, hseparate, fitChannels_eq, List.map_map]
    rfl

/-- Three channels for a file with two, of which the longest is left out, and a sample that is no number. -/
theorem riff_read_of_write_ragged :
    let spec : WavSpec := { channels := 2, sampleRate := 48000, bits := 32 }
    let odd : Sample := ⟨0x7fc01234⟩
    ∃ bytes, riff.write spec [[odd], [], [⟨1⟩, ⟨2⟩]] = .ok bytes ∧
      riff.read bytes = .ok ([[odd, .zero], [.zero, .zero]], spec) :=
  riff.read_of_write rfl (by decide) (riff_keeps ⟨rfl, by decide, by decide, by decide, by decide⟩
    (by decide) (by decide))

end Patchbay.Wav
