/-!
# Cosines

The cosine of an angle of at most one turn, in doubles. The angle is brought near zero by taking off
quarters of a turn, where a quarter is known to more digits than a double holds and the difference
is kept as a double and a small rest. There, cosine and sine are polynomials. Every operation is
rounded as it is written, so the result is the same everywhere.
-/

namespace Patchbay.Cosine

/-- The first 33 bits of a quarter of a turn. -/
def quarter : Float := Float.ofBits 0x3ff921fb54400000

/-- A quarter of a turn without its first 33 bits. -/
def quarterRest : Float := Float.ofBits 0x3dd0b4611a626331

/-- The second 33 bits of a quarter of a turn. -/
def quarterSecond : Float := Float.ofBits 0x3dd0b4611a600000

/-- A quarter of a turn without its first 66 bits. -/
def quarterSecondRest : Float := Float.ofBits 0x3ba3198a2e037073

/-- The third 33 bits of a quarter of a turn. -/
def quarterThird : Float := Float.ofBits 0x3ba3198a2e000000

/-- A quarter of a turn without its first 99 bits. -/
def quarterThirdRest : Float := Float.ofBits 0x397b839a252049c1

/-- How many quarters of a turn make up an angle of one. -/
def quartersPerUnit : Float := Float.ofBits 0x3fe45f306dc9c883

/-- An angle less some quarters of a turn. The angle is the sum of its two parts. -/
structure Reduced where
  quarters : Nat
  angle : Float
  rest : Float
deriving Repr, Inhabited

/-- The upper half of a magnitude's bits, which grows with the magnitude. -/
def upperHalf (x : Float) : UInt64 := (x.toBits >>> 32) &&& 0x7fffffff

/-- The power field of a double. -/
def power (x : Float) : UInt64 := (x.toBits >>> 52) &&& 0x7ff

/-- Take quarters off, where that leaves nothing near zero. -/
def takeOff (quarters : Nat) (x : Float) : Reduced :=
  let count := Float.ofNat quarters
  let left := x - count * quarter
  let angle := left - count * quarterRest
  ⟨quarters, angle, (left - angle) - count * quarterRest⟩

/-- Take off the nearest number of quarters, where that may leave very little. The less is left, the
more digits of a quarter are used. -/
def takeOffNearest (x : Float) : Reduced :=
  let shift : Float := 6755399441055744.0
  let count := x * quartersPerUnit + shift - shift
  let finish (left taken : Float) : Reduced :=
    let angle := left - taken
    ⟨count.toUInt64.toNat, angle, (left - angle) - taken⟩
  let refine (left second rest : Float) : Float × Float :=
    let next := left - count * second
    (next, count * rest - ((left - next) - count * second))
  let left := x - count * quarter
  let taken := count * quarterRest
  if power x ≤ power (left - taken) + 16 then finish left taken
  else
    let (left, taken) := refine left quarterSecond quarterSecondRest
    if power x ≤ power (left - taken) + 49 then finish left taken
    else
      let (left, taken) := refine left quarterThird quarterThirdRest
      finish left taken

/-- Bring an angle of at most one turn near zero. -/
def reduce (x : Float) : Reduced :=
  let half := upperHalf x
  if [0x3ff921fb, 0x400921fb, 0x4012d97c, 0x401921fb].contains half then takeOffNearest x
  else if half ≤ 0x4002d97c then takeOff 1 x
  else if half ≤ 0x400f6a7a then takeOff 2 x
  else if half ≤ 0x4015fdbc then takeOff 3 x
  else takeOff 4 x

/-- The cosine of an angle near zero. -/
def nearZero (angle rest : Float) : Float :=
  let z := angle * angle
  let w := z * z
  let c1 := Float.ofBits 0x3fa555555555554c
  let c2 := Float.ofBits 0xbf56c16c16c15177
  let c3 := Float.ofBits 0x3efa01a019cb1590
  let c4 := Float.ofBits 0xbe927e4f809c52ad
  let c5 := Float.ofBits 0x3e21ee9ebdb4b1c4
  let c6 := Float.ofBits 0xbda8fae9be8838d4
  let r := z * (c1 + z * (c2 + z * c3)) + w * w * (c4 + z * (c5 + z * c6))
  let halved := 0.5 * z
  let top := 1.0 - halved
  top + (((1.0 - top) - halved) + (z * r - angle * rest))

/-- The sine of an angle near zero. -/
def sineNearZero (angle rest : Float) : Float :=
  let z := angle * angle
  let w := z * z
  let s1 := Float.ofBits 0xbfc5555555555549
  let s2 := Float.ofBits 0x3f8111111110f8a6
  let s3 := Float.ofBits 0xbf2a01a019c161d5
  let s4 := Float.ofBits 0x3ec71de357b1fe7d
  let s5 := Float.ofBits 0xbe5ae5e68a2b9ceb
  let s6 := Float.ofBits 0x3de5d93a5acfd57c
  let r := s2 + z * (s3 + z * s4) + z * w * (s5 + z * s6)
  let v := z * angle
  angle - ((z * (0.5 * rest - v * r) - rest) - v * s1)

/-- The cosine of a reduced angle: each quarter taken off turns cosine into sine, with its sign. -/
def ofReduced (x : Reduced) : Float :=
  match x.quarters % 4 with
  | 0 => nearZero x.angle x.rest
  | 1 => -sineNearZero x.angle x.rest
  | 2 => -nearZero x.angle x.rest
  | _ => sineNearZero x.angle x.rest

/-- The cosine of an angle of at most one turn. -/
def cosine (x : Float) : Float :=
  if upperHalf x ≤ 0x3fe921fb then
    if upperHalf x < 0x3e46a09e then 1.0 else nearZero x 0.0
  else ofReduced (reduce x)

end Patchbay.Cosine
