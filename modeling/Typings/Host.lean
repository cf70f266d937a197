import Typings.Outcome

/-!
# Hosts

What a run asks of its surroundings, the file system apart. There are two things, and the
library defines neither of them.

**Consoles.** A run tells of its progress on one console and of its end on another. Both
take markup: a tag in brackets switches a style on, and one with a slash switches it off
again. So a message can be refused, because a tag in it closes nothing that is open. Error
messages are escaped before they are shown. Messages of progress are not, although paths
and the names of namespaces stand in them.

**Bytes.** Documents can hold half a surrogate pair, by an escape. Texts are made of
characters here, and such a half is read as the replacement character U+FFFD. Whether what
is shown or written holds one is then no longer seen in the text, and it is the host that
knows.

What is relied on is written down in `Host.IsLawful`. A theorem that relies on none of it
holds for every host, and says for each message what follows if it cannot be shown.
-/

namespace Typings

/-- The surroundings of a run. -/
structure Host where
  /-- Show a message of progress. -/
  out : String → Except ConsoleProblem Unit
  /-- Show an error message: what the user gets to see of it. -/
  err : String → Except ConsoleProblem String
  /-- A text in which nothing is markup. -/
  escape : String → String
  /-- Are there bytes for a text? -/
  encodes : String → Bool

namespace Host

/-- Show a message of progress; one that cannot be shown is a fault. -/
def say (h : Host) (message : String) : Except Fault Unit :=
  (h.out message).mapError .unprintable

/-- The mark in front of messages about the whole run. -/
def title : String := "[bold](webext-typegen)[/bold] "

/-- The style that headings of error messages are shown in. -/
def errorStyle (words : String) : String := "[bold red]" ++ words ++ "[/bold red] "

/-- A text without halves of surrogate pairs, as far as can be seen. -/
def IsWhole (s : String) : Prop := '\uFFFD' ∉ s.toList

instance (s : String) : Decidable (IsWhole s) := inferInstanceAs (Decidable (_ ∉ _))

/-- A text without anything that could be markup. -/
def IsPlain (s : String) : Prop := '[' ∉ s.toList ∧ IsWhole s

instance (s : String) : Decidable (IsPlain s) := inferInstanceAs (Decidable (_ ∧ _))

/-- What is relied on: consoles show what holds no markup but that of the library, and
whole texts have bytes. -/
structure IsLawful (h : Host) : Prop where
  plain : ∀ s, IsPlain s → h.out s = .ok ()
  titled : ∀ s, IsPlain s → h.out (title ++ s) = .ok ()
  escaped : ∀ heading s, IsPlain heading → IsWhole s →
    ∃ shown, h.err (errorStyle heading ++ h.escape s) = .ok shown
  encodes : ∀ s, IsWhole s → h.encodes s = true

/-- The host that shows every message as it stands, and has bytes for every text. -/
def verbatim : Host where
  out _ := .ok ()
  err message := .ok (message ++ "\n")
  escape := id
  encodes _ := true

theorem isLawful_verbatim : verbatim.IsLawful where
  plain _ _ := rfl
  titled _ _ := rfl
  escaped _ _ _ _ := ⟨_, rfl⟩
  encodes _ _ := rfl

theorem say_eq_ok {h : Host} {message : String} {u : Unit} :
    h.say message = .ok u ↔ h.out message = .ok () := by
  unfold say
  cases h.out message with
  | ok => exact ⟨fun _ => rfl, fun _ => rfl⟩
  | error problem => exact ⟨nofun, nofun⟩

theorem say_eq_error {h : Host} {message : String} {f : Fault} : h.say message = .error f ↔
    ∃ problem, h.out message = .error problem ∧ f = .unprintable problem := by
  unfold say
  cases h.out message with
  | ok => exact ⟨nofun, nofun⟩
  | error problem =>
    constructor
    · rintro ⟨⟩
      exact ⟨problem, rfl, rfl⟩
    · rintro ⟨_, ⟨⟩, rfl⟩
      rfl

end Host

end Typings
