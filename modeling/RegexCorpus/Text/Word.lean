import RegexCorpus.Text.CodeSet

/-!
# Word characters

The letters, marks that count as letters, numbers of every script, and the underscore: what the
class escape for a word character means in a Unicode pattern.
-/

namespace RegexCorpus.Text

def wordChars : CodeSet := .ofRuns [
  "VjgzdaazUagbaacbacawaEa458.dlnegaaa129.eabbdaafaacaaata83.a139.h166.aLbafO71.AddSQujdba99.aaob",
  "gobapaaDC89.kanQibdaevdaiacawygkexafqP58.54.caragjdjapdhbbbvagaacdcapambacdlbfbahfdbbvagababab",
  "EdaagjbcpiacavagabaecaraobdjiakhbbbvagabaecaDbacdjagkaafccadcbaaabcbccclvaumrhacawapcazcbabbdj",
  "hgaadhacawajaecaEbabdjabqiacaObapaecajdsafercxaiaabgEjqVablgijMbaaaeaxaaajabiabeaaijbdFaEtlhaJ",
  "Ae115.QtkffddcacbgcdmlaajfLaaeabQa333.adbgaaadbOadbGadbgaaadboa57.adb67.ntcpp86.bfc620.bqaze75",
  ".ckgrmsnrnmacoZIadacjfjvjf89.gebHaae70.jEMNbekRdzfkKwi53.Qjfjma93.UqhcjODm56.zJBjcWbigQbcOdafa",
  "bcae192.64.278.bfbLbfbhaaaaaaaEb53.agaaccagcdbfdmecag115.bbfekfm101.adabjaacefaaaaaadakbdeedaa",
  "58.726.60.78.v630.D1132.229.fdcbiabLaaeab56.gapwigagagagagagagag80.a469.cyigebed86.fca90.adeQa",
  "94.cdjFVpFjDhaoFjMo320.6592.64.22157.67.Tb269.cBtUpEb80.Mib103.b64.ebaaaexpacadawmfjZnXBjxfcaa",
  "baLjwyCgUBkfeayaOwcahdjfwcacXaacbbebaaaxcbkgclfbfbfigagaQanf115.mjf11172.lwdW8452.366.b106.Lgl",
  "eeaajamaeaaababa108.G363.r64.b54.Nl116.ea135.sjgzfzk89.cfbfbfbcIlazasabaobnH123.lSl57.qb244.Cc",
  "WpAdJiDeLjDbJdhaeP158.bjfJdJdNhZlkaoagabakaoagab67.311.ivjhxfaPai69.fbaaRabcabwbEbLhiVsabeGdz7",
  "0.56.dtbUodacaCjiwEaFFhaBfep54.jvbAezwg80.73.55.YmYgPlj294.EaPfb78.NhvkdArTBtwl53.zDabbamSFygj",
  "iJojdabahIcalVndkkaadtkray84.gaaadaoajgUqjkhbbbvagabaecarale158.53.rdejecDVtbaahj166.UOdJVtakj",
  "LQmagj54.Auldg185.R116.83.lhbabhabaxoaaanj70.hbMpaaaBajNgauakTsar73.263.iaKqaoCeD112.gabaLuaij",
  "ffabaFnagj310.s189.aouQ922.102.111.q196.2636.97.o1071.4049.583.8633.569.gEajf79.ajfDrVpdljagau",
  "es688.87.105.75.ea66.m64.baaB6136.h1238.Pi8935.dagaba291.Scqdh396.2308.107.emcigj5702.t108.y13",
  "5.85.a71.abbabbbdalaaaga65.adbhagaBadaeaacga340.byayaEayaEayaEayaEayahbX1792.E481.Sjgbjda321.D",
  "rRdj1254.gadabaoa197.biV68.gadj791.59.acad76.Sao194.daAabaabaajadaaaafadaaaaaacabaabaaaaaaaaaa",
  "baabdagadadaaajaqecaeaq580.m2787.j1030.42720.F4153.g222.b5762.n7473.3103.542.1506.4939."]

def isWord (c : Char) : Bool := wordChars.contains c

end RegexCorpus.Text
