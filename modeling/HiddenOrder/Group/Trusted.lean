import HiddenOrder.Group.Parameters

/-!
# Fixed parameters

A group of 2048 bits for tests and demonstrations, whose factors are held to be lost.

* **`GroupParameters.trusted`** — the parameters.
-/

namespace HiddenOrder

namespace GroupParameters

/-- The modulus of the fixed parameters. -/
def trustedN : Int :=
  22582513446883649683242153375773765418277977026848618150278436227443969113525388360965414596382292671632010154272027792498289390464326093128963474525925743125404187090638221587455285089494562751793489098182761320953828657439130044252338283109583198301789045090284695934345711523245381620643226632165168827411546661236460973389982263385406789443858985073091473529732325356098830825299275985202060852102775942940039443155227986748457261585440368528834910182851433705587223040610934954417065434756145769875043620201897615075786323297141320586481340831246603933018654794846594742280842668198512719618188992528830140149361

/-- The first generator of the fixed parameters. -/
def trustedG : Int :=
  3734320578166922768976307305081280303658237303482921793243310032002132951325426885895423150554487167609218974062079302792001919827304933109188668552532361245089029380294384169787606911401094856511916709999954764232948323779503820860893459514928713744983707360078264267038900798843893405664990521531326919997106338139056096176409033756102908667173913246197068450150318832809948977367751025873698025220766782003611956130604742644746610708520581969538416206455665972248047959779079118036299417601968576259426648158714614452861031491553305187113545916330322686053758561416773919173504690956803771722726889946697788319929

/-- The second generator of the fixed parameters. -/
def trustedH : Int :=
  1582433196042535773898642856814926874501199844772808209798545765882857391073717631360065816613373509202691737458490830509979879771883168398785856056110736083435040549860024938378796318753064835110482441115760897524667343221753799849207723195729358565521753697076761550453675996906942484179834968386568757636433579938945322152073309477120701766107272148535093122238519340372766971216124175473667780382425281013570558875523373504108433319932127851859684947025440123382599601611460274335280822834972913253420025827402904805226163959418839188054187383250553791823431534564282919675786841775533806609995586228017407921459

/-- The fixed parameters. -/
def trusted : GroupParameters where
  N := trustedN
  G := trustedG
  H := trustedH
  three_le_N := by decide +kernel
  one_lt_G := by decide +kernel
  G_lt_N := by decide +kernel
  gcd_G := by decide +kernel
  one_lt_H := by decide +kernel
  H_lt_N := by decide +kernel
  gcd_H := by decide +kernel

end GroupParameters

end HiddenOrder
