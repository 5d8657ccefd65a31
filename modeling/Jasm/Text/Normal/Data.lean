import Std.Data.HashMap
import Jasm.Text.CodePoints

/-!
# Canonical decomposition data

The canonical decompositions, the combining classes and the composition exclusions of the Unicode
character database, version 15. Hangul syllables are left out: they are composed by arithmetic.
-/

namespace Jasm.Text.Normal

/-- Canonical decomposition mappings, one step each: `c0=41+300`. A mapping without a code point is
that of the next one after the mapping before it, and a part that is left out is the same as in that
mapping. -/
def decompositionText : String := "
c0=41+300 +301 +302 +303 +308 +30a c7=43+327 45+300 +301 +302 +308 49+300 +301 +302 +308 d1=4e+303
4f+300 +301 +302 +303 +308 d9=55+300 +301 +302 +308 59+301 e0=61+300 +301 +302 +303 +308 +30a
e7=63+327 65+300 +301 +302 +308 69+300 +301 +302 +308 f1=6e+303 6f+300 +301 +302 +303 +308 f9=75+300
+301 +302 +308 79+301 ff=+308 41+304 61+ 41+306 61+ 41+328 61+ 43+301 63+ 43+302 63+ 43+307 63+
43+30c 63+ 44+ 64+ 112=45+304 65+ 45+306 65+ 45+307 65+ 45+328 65+ 45+30c 65+ 47+302 67+ 47+306 67+
47+307 67+ 47+327 67+ 48+302 68+ 128=49+303 69+ 49+304 69+ 49+306 69+ 49+328 69+ 49+307 134=4a+302
6a+ 4b+327 6b+ 139=4c+301 6c+ 4c+327 6c+ 4c+30c 6c+ 143=4e+301 6e+ 4e+327 6e+ 4e+30c 6e+ 14c=4f+304
6f+ 4f+306 6f+ 4f+30b 6f+ 154=52+301 72+ 52+327 72+ 52+30c 72+ 53+301 73+ 53+302 73+ 53+327 73+
53+30c 73+ 54+327 74+ 54+30c 74+ 168=55+303 75+ 55+304 75+ 55+306 75+ 55+30a 75+ 55+30b 75+ 55+328
75+ 57+302 77+ 59+ 79+ 59+308 5a+301 7a+ 5a+307 7a+ 5a+30c 7a+ 1a0=4f+31b 6f+ 1af=55+ 75+ 1cd=41+30c
61+ 49+ 69+ 4f+ 6f+ 55+ 75+ dc+304 fc+ dc+301 fc+ dc+30c fc+ dc+300 fc+ 1de=c4+304 e4+ 226+ 227+ c6+
e6+ 1e6=47+30c 67+ 4b+ 6b+ 4f+328 6f+ 1ea+304 1eb+ 1b7+30c 292+ 6a+ 1f4=47+301 67+ 1f8=4e+300 6e+
c5+301 e5+ c6+ e6+ d8+ f8+ 41+30f 61+ 41+311 61+ 45+30f 65+ 45+311 65+ 49+30f 69+ 49+311 69+ 4f+30f
6f+ 4f+311 6f+ 52+30f 72+ 52+311 72+ 55+30f 75+ 55+311 75+ 53+326 73+ 54+ 74+ 21e=48+30c 68+
226=41+307 61+ 45+327 65+ d6+304 f6+ d5+ f5+ 4f+307 6f+ 22e+304 22f+ 59+ 79+ 340=300 301 343=313
308+301 374=2b9 37e=3b 385=a8+301 391+ b7 395+301 397+ 399+ 38c=39f+ 38e=3a5+ 3a9+ 3ca+ 3aa=399+308
3a5+ 3b1+301 3b5+ 3b7+ 3b9+ 3cb+ 3ca=3b9+308 3c5+ 3bf+301 3c5+ 3c9+ 3d3=3d2+ +308 400=415+300 +308
403=413+301 407=406+308 40c=41a+301 418+300 423+306 419=418+ 439=438+ 450=435+300 +308 453=433+301
457=456+308 45c=43a+301 438+300 443+306 476=474+30f 475+ 4c1=416+306 436+ 4d0=410+ 430+ 410+308 430+
4d6=415+306 435+ 4da=4d8+308 4d9+ 416+ 436+ 417+ 437+ 4e2=418+304 438+ 418+308 438+ 41e+ 43e+
4ea=4e8+ 4e9+ 42d+ 44d+ 423+304 443+ 423+308 443+ 423+30b 443+ 427+308 447+ 4f8=42b+ 44b+
622=627+653 +654 648+ 627+655 64a+654 6c0=6d5+ 6c2=6c1+ 6d3=6d2+ 929=928+93c 931=930+ 934=933+
958=915+ 916+ 917+ 91c+ 921+ 922+ 92b+ 92f+ 9cb=9c7+9be +9d7 9dc=9a1+9bc 9a2+ 9df=9af+ a33=a32+a3c
a36=a38+ a59=a16+ a17+ a1c+ a5e=a2b+ b48=b47+b56 b4b=+b3e +b57 b5c=b21+b3c b22+ b94=b92+bd7
bca=bc6+bbe bc7+ bc6+bd7 c48=c46+c56 cc0=cbf+cd5 cc7=cc6+ +cd6 cca=+cc2 cca+cd5 d4a=d46+d3e d47+
d46+d57 dda=dd9+dca ddc=+dcf ddc+dca dd9+ddf f43=f42+fb7 f4d=f4c+ f52=f51+ f57=f56+ f5c=f5b+
f69=f40+fb5 f73=f71+f72 f75=+f74 fb2+f80 f78=fb3+ f81=f71+ f93=f92+fb7 f9d=f9c+ fa2=fa1+ fa7=fa6+
fac=fab+ fb9=f90+fb5 1026=1025+102e 1b06=1b05+1b35 1b08=1b07+ 1b0a=1b09+ 1b0c=1b0b+ 1b0e=1b0d+
1b12=1b11+ 1b3b=1b3a+ 1b3d=1b3c+ 1b40=1b3e+ 1b3f+ 1b43=1b42+ 1e00=41+325 61+ 42+307 62+ 42+323 62+
42+331 62+ c7+301 e7+ 44+307 64+ 44+323 64+ 44+331 64+ 44+327 64+ 44+32d 64+ 112+300 113+ 112+301
113+ 45+32d 65+ 45+330 65+ 228+306 229+ 46+307 66+ 47+304 67+ 48+307 68+ 48+323 68+ 48+308 68+
48+327 68+ 48+32e 68+ 49+330 69+ cf+301 ef+ 4b+ 6b+ 4b+323 6b+ 4b+331 6b+ 4c+323 6c+ 1e36+304 1e37+
4c+331 6c+ 4c+32d 6c+ 4d+301 6d+ 4d+307 6d+ 4d+323 6d+ 4e+307 6e+ 4e+323 6e+ 4e+331 6e+ 4e+32d 6e+
d5+301 f5+ d5+308 f5+ 14c+300 14d+ 14c+301 14d+ 50+ 70+ 50+307 70+ 52+ 72+ 52+323 72+ 1e5a+304 1e5b+
52+331 72+ 53+307 73+ 53+323 73+ 15a+307 15b+ 160+ 161+ 1e62+ 1e63+ 54+ 74+ 54+323 74+ 54+331 74+
54+32d 74+ 55+324 75+ 55+330 75+ 55+32d 75+ 168+301 169+ 16a+308 16b+ 56+303 76+ 56+323 76+ 57+300
77+ 57+301 77+ 57+308 77+ 57+307 77+ 57+323 77+ 58+307 78+ 58+308 78+ 59+307 79+ 5a+302 7a+ 5a+323
7a+ 5a+331 7a+ 68+ 74+308 77+30a 79+ 1e9b=17f+307 1ea0=41+323 61+ 41+309 61+ c2+301 e2+ c2+300 e2+
c2+309 e2+ c2+303 e2+ 1ea0+302 1ea1+ 102+301 103+ 102+300 103+ 102+309 103+ 102+303 103+ 1ea0+306
1ea1+ 45+323 65+ 45+309 65+ 45+303 65+ ca+301 ea+ ca+300 ea+ ca+309 ea+ ca+303 ea+ 1eb8+302 1eb9+
49+309 69+ 49+323 69+ 4f+ 6f+ 4f+309 6f+ d4+301 f4+ d4+300 f4+ d4+309 f4+ d4+303 f4+ 1ecc+302 1ecd+
1a0+301 1a1+ 1a0+300 1a1+ 1a0+309 1a1+ 1a0+303 1a1+ 1a0+323 1a1+ 55+ 75+ 55+309 75+ 1af+301 1b0+
1af+300 1b0+ 1af+309 1b0+ 1af+303 1b0+ 1af+323 1b0+ 59+300 79+ 59+323 79+ 59+309 79+ 59+303 79+
1f00=3b1+313 +314 1f00+300 1f01+ 1f00+301 1f01+ 1f00+342 1f01+ 391+313 +314 1f08+300 1f09+ 1f08+301
1f09+ 1f08+342 1f09+ 3b5+313 +314 1f10+300 1f11+ 1f10+301 1f11+ 1f18=395+313 +314 1f18+300 1f19+
1f18+301 1f19+ 1f20=3b7+313 +314 1f20+300 1f21+ 1f20+301 1f21+ 1f20+342 1f21+ 397+313 +314 1f28+300
1f29+ 1f28+301 1f29+ 1f28+342 1f29+ 3b9+313 +314 1f30+300 1f31+ 1f30+301 1f31+ 1f30+342 1f31+
399+313 +314 1f38+300 1f39+ 1f38+301 1f39+ 1f38+342 1f39+ 3bf+313 +314 1f40+300 1f41+ 1f40+301 1f41+
1f48=39f+313 +314 1f48+300 1f49+ 1f48+301 1f49+ 1f50=3c5+313 +314 1f50+300 1f51+ 1f50+301 1f51+
1f50+342 1f51+ 1f59=3a5+314 1f5b=1f59+300 1f5d=+301 1f5f=+342 3c9+313 +314 1f60+300 1f61+ 1f60+301
1f61+ 1f60+342 1f61+ 3a9+313 +314 1f68+300 1f69+ 1f68+301 1f69+ 1f68+342 1f69+ 3b1+300 3ac 3b5+300
3ad 3b7+300 3ae 3b9+300 3af 3bf+300 3cc 3c5+300 3cd 3c9+300 3ce 1f80=1f00+345 1f01+ 1f02+ 1f03+
1f04+ 1f05+ 1f06+ 1f07+ 1f08+ 1f09+ 1f0a+ 1f0b+ 1f0c+ 1f0d+ 1f0e+ 1f0f+ 1f20+ 1f21+ 1f22+ 1f23+
1f24+ 1f25+ 1f26+ 1f27+ 1f28+ 1f29+ 1f2a+ 1f2b+ 1f2c+ 1f2d+ 1f2e+ 1f2f+ 1f60+ 1f61+ 1f62+ 1f63+
1f64+ 1f65+ 1f66+ 1f67+ 1f68+ 1f69+ 1f6a+ 1f6b+ 1f6c+ 1f6d+ 1f6e+ 1f6f+ 3b1+306 +304 1f70+345 3b1+
3ac+ 1fb6=3b1+342 1fb6+345 391+306 +304 +300 386 391+345 1fbe=3b9 1fc1=a8+342 1f74+345 3b7+ 3ae+
1fc6=3b7+342 1fc6+345 395+300 388 397+300 389 397+345 1fbf+300 +301 +342 3b9+306 +304 3ca+300 390
1fd6=3b9+342 3ca+ 399+306 +304 +300 38a 1fdd=1ffe+300 +301 +342 3c5+306 +304 3cb+300 3b0 3c1+313
+314 3c5+342 3cb+ 3a5+306 +304 +300 38e 3a1+314 a8+300 385 60 1ff2=1f7c+345 3c9+ 3ce+ 1ff6=3c9+342
1ff6+345 39f+300 38c 3a9+300 38f 3a9+345 b4 2000=2002 2003 2126=3a9 212a=4b c5 219a=2190+338 2192+
21ae=2194+ 21cd=21d0+ 21d4+ 21d2+ 2204=2203+ 2209=2208+ 220c=220b+ 2224=2223+ 2226=2225+ 2241=223c+
2244=2243+ 2247=2245+ 2249=2248+ 2260=3d+ 2262=2261+ 226d=224d+ 3c+ 3e+ 2264+ 2265+ 2274=2272+ 2273+
2278=2276+ 2277+ 2280=227a+ 227b+ 2284=2282+ 2283+ 2288=2286+ 2287+ 22ac=22a2+ 22a8+ 22a9+ 22ab+
22e0=227c+ 227d+ 2291+ 2292+ 22ea=22b2+ 22b3+ 22b4+ 22b5+ 2329=3008 3009 2adc=2add+338
304c=304b+3099 304e=304d+ 3050=304f+ 3052=3051+ 3054=3053+ 3056=3055+ 3058=3057+ 305a=3059+
305c=305b+ 305e=305d+ 3060=305f+ 3062=3061+ 3065=3064+ 3067=3066+ 3069=3068+ 3070=306f+ +309a
3073=3072+3099 +309a 3076=3075+3099 +309a 3079=3078+3099 +309a 307c=307b+3099 +309a 3094=3046+3099
309e=309d+ 30ac=30ab+ 30ae=30ad+ 30b0=30af+ 30b2=30b1+ 30b4=30b3+ 30b6=30b5+ 30b8=30b7+ 30ba=30b9+
30bc=30bb+ 30be=30bd+ 30c0=30bf+ 30c2=30c1+ 30c5=30c4+ 30c7=30c6+ 30c9=30c8+ 30d0=30cf+ +309a
30d3=30d2+3099 +309a 30d6=30d5+3099 +309a 30d9=30d8+3099 +309a 30dc=30db+3099 +309a 30f4=30a6+3099
30f7=30ef+ 30f0+ 30f1+ 30f2+ 30fe=30fd+ fb1d=5d9+5b4 fb1f=5f2+5b7 fb2a=5e9+5c1 +5c2 fb49+5c1 +5c2
5d0+5b7 +5b8 +5bc 5d1+ 5d2+ 5d3+ 5d4+ 5d5+ 5d6+ fb38=5d8+ 5d9+ 5da+ 5db+ 5dc+ fb3e=5de+ fb40=5e0+
5e1+ fb43=5e3+ 5e4+ fb46=5e6+ 5e7+ 5e8+ 5e9+ 5ea+ 5d5+5b9 5d1+5bf 5db+ 5e4+ 1109a=11099+110ba
1109c=1109b+ 110ab=110a5+ 1112e=11131+11127 11132+ 1134b=11347+1133e +11357 114bb=114b9+114ba +114b0
114be=+114bd 115ba=115b8+115af 115b9+ 11938=11935+11930 1d15e=1d157+1d165 1d158+ 1d15f+1d16e +1d16f
+1d170 +1d171 +1d172 1d1bb=1d1b9+1d165 1d1ba+ 1d1bb+1d16e 1d1bc+ 1d1bb+1d16f 1d1bc+
"

/-- Compatibility ideographs and the ones they stand for: `f900=豈更` is a run of them. A run without
a code point goes on with the one before it. -/
def ideographText : String := "
f900=豈更車賈滑串句龜龜契金喇奈懶癩羅蘿螺裸邏樂洛烙珞落酪駱亂卵欄爛蘭鸞嵐濫藍襤拉臘蠟廊朗浪狼郎來冷勞擄櫓
爐盧老蘆虜路露魯鷺碌祿綠菉錄鹿論壟弄籠聾牢磊賂雷壘屢樓淚漏累縷陋勒肋凜凌稜綾菱陵讀拏樂諾丹寧怒率異北
磻便復不泌數索參塞省葉說殺辰沈拾若掠略亮兩凉梁糧良諒量勵呂女廬旅濾礪閭驪麗黎力曆歷轢年憐戀撚漣煉璉秊
練聯輦蓮連鍊列劣咽烈裂說廉念捻殮簾獵令囹寧嶺怜玲瑩羚聆鈴零靈領例禮醴隸惡了僚寮尿料樂燎療蓼遼龍暈阮劉
杻柳流溜琉留硫紐類六戮陸倫崙淪輪律慄栗率隆利吏履易李梨泥理痢罹裏裡里離匿溺吝燐璘藺隣鱗麟林淋臨立笠粒
狀炙識什茶刺切度拓糖宅洞暴輻行降見廓兀嗀 fa10=塚 fa12=晴 fa15=凞猪益礼神祥福靖精羽 fa20=蘒 fa22=諸 fa25=逸都
fa2a=飯飼館鶴郞隷侮僧免勉勤卑喝嘆器塀墨層屮悔慨憎懲敏既暑梅海渚漢煮爫琢碑社祉祈祐祖祝禍禎穀突節練縉繁署者
臭艹艹著褐視謁謹賓贈辶逸難響頻恵𤋮舘
fa70=並况全侀充冀勇勺喝啕喙嗢塚墳奄奔婢嬨廒廙彩徭惘慎愈憎慠懲戴揄搜摒敖晴朗望杖歹殺流滛滋漢瀞煮瞧爵犯猪瑱
甆画瘝瘟益盛直睊着磌窱節类絛練缾者荒華蝹襁覆視調諸請謁諾諭謹變贈輸遲醙鉶陼難靖韛響頋頻鬒龜𢡊𢡄𣏕㮝䀘
䀹𥉉𥳐𧻓齃龎
2f800=丽丸乁𠄢你侮侻倂偺備僧像㒞𠘺免兔兤具𠔜㒹內再𠕋冗冤仌冬况𩇟凵刃㓟刻剆割剷㔕勇勉勤勺包匆北卉卑博即卽卿
卿卿𠨬灰及叟𠭣叫叱吆咞吸呈周咢哶唐啓啣善善喙喫喳嗂圖嘆圗噑噴切壮城埴堍型堲報墬𡓤売壷夆多夢奢𡚨𡛪姬娛
娧姘婦㛮㛼嬈嬾嬾𡧈寃寘寧寳𡬘寿将当尢㞁屠屮峀岍𡷤嵃𡷦嵮嵫嵼巡巢㠯巽帨帽幩㡢𢆃㡼庰庳庶廊𪎒廾𢌱𢌱舁弢弢
㣇𣊸𦇚形彫㣣徚忍志忹悁㤺㤜悔𢛔惇慈慌慎慌慺憎憲憤憯懞懲懶成戛扝抱拔捐𢬌挽拼捨掃揤𢯱搢揅掩㨮摩摾撝摷㩬
敏敬𣀊旣書晉㬙暑㬈㫤冒冕最暜肭䏙朗望朡杞杓𣏃㭉柺枅桒梅𣑭梎栟椔㮝楂榣槪檨𣚣櫛㰘次𣢧歔㱎歲殟殺殻𣪍𡴋𣫺
汎𣲼沿泍汧洖派海流浩浸涅𣴞洴港湮㴳滋滇𣻑淹潮𣽞𣾎濆瀹瀞瀛㶖灊災灷炭𠔥煅𤉣熜𤎫爨爵牐𤘈犀犕𤜵𤠔獺王㺬玥
㺸㺸瑇瑜瑱璅瓊㼛甤𤰶甾𤲒異𢆟瘐𤾡𤾸𥁄㿼䀈直𥃳𥃲𥄙𥄳眞真真睊䀹瞋䁆䂖𥐝硎碌磌䃣𥘦祖𥚚𥛅福秫䄯穀穊穏𥥼𥪧
𥪧竮䈂𥮫篆築䈧𥲀糒䊠糨糣紀𥾆絣䌁緇縂繅䌴𦈨𦉇䍙𦋙罺𦌾羕翺者𦓚𦔣聠𦖨聰𣍟䏕育脃䐋脾媵𦞧𦞵𣎓𣎜舁舄辞䑫芑
芋芝劳花芳芽苦𦬼若茝荣莭茣莽菧著荓菊菌菜𦰶𦵫𦳕䔫蓱蓳蔖𧏊蕤𦼬䕝䕡𦾱𧃒䕫虐虜虧虩蚩蚈蜎蛢蝹蜨蝫螆䗗蟡蠁
䗹衠衣𧙧裗裞䘵裺㒻𧢮𧥦䚾䛇誠諭變豕𧲨貫賁贛起𧼯𠠄跋趼跰𠣞軔輸𨗒𨗭邔郱鄑𨜮鄛鈸鋗鋘鉼鏹鐕𨯺開䦕閷𨵷䧦雃
嶲霣𩅅𩈚䩮䩶韠𩐊䪲𩒖頋頋頩𩖶飢䬳餩馧駂駾䯎𩬰鬒鱀鳽䳎䳭鵧𪃎䳸𪄅𪈎𪊑麻䵖黹黾鼅鼏鼖鼻𪘀"

/-- Composites that are never formed again once taken apart. -/
def excluded : CodePoints := CodePoints.ofString "
958-f dc-d f a33 6 59-b e b5c-d f43 d 52 7 c 69 76 8 93 d a2 7 c b9 2adc fb1d f 2a-36 8-c e 40-1
3-4 6-e 1d15e-64 bb-c0
"

/-- Combining classes other than zero, each before its code points: `240: 345`. -/
def combiningText : String := "
1: 334-8 1cd4 e2-8 20d2-3 8-a e5-6 a-b 10a39 6af0-4 bc9e d167-9 6: 16ff0-1 7: 93c bc a3c bc b3c c3c
bc 1037 b34 e6 c37 a9b3 110ba 173 ca 236 e9 33b-c 446 c3 5c0 6b7 83a 943 d42 e94a 8: 3099-a 9: 94d
cd a4d cd b4d cd c4d cd d3b-c 4d ca e3a ba f84 1039-a 714-5 34 d2 a60 b44 aa-b f2-3 2d7f a806 2c c4
953 c0 af6 bed 10a3f 1046 70 f b9 133-4 c0 235 ea 34d 442 c2 5bf 63f b6 72b 839 93d-e e0 a34 47 99
c3f d44-5 97 f41-2 10: 5b0 11: 5b1 12: 5b2 13: 5b3 14: 5b4 15: 5b5 16: 5b6 17: 5b7 18: 5b8 c7 19:
5b9-a 20: 5bb 21: 5bc 22: 5bd 23: 5bf 24: 5c1 25: 5c2 26: fb1e 27: 64b 8f0 28: 64c 8f1 29: 64d 8f2
30: 618 4e 31: 619 4f 32: 61a 50 33: 651 34: 652 35: 670 36: 711 84: c55 91: c56 103: e38-9 107:
e48-b 118: eb8-9 122: ec8-b 129: f71 130: f72 a-d 80 132: f74 202: 321-2 7-8 1dd0 214: 1dce 216:
31b f39 1d165-6 e-72 218: 1dfa 302a 220: 316-9 c-20 3-6 9-33 9-c 47-9 d-e 53-6 9-a 591 6 b a2-7 a
c5 655-6 c f e3 a d 731 4 7-9 b-c e 42 4 6 8 f2 d 859-b 99-b cf-d3 e3 6 9 d-f f6 9-a 952 f18-9 35 7
c6 108d 93b a18 7f b5-a d f-c0 3-4 a b6c cd5-9 c-f ed dc2 a f f9 d f 20e8 c-f a92b-d ab4 fe27-d
101fd 2e0 a0d 3a e6 efd-f f46-7 b d-50 83 5 d17b-82 a-b e4ee 8d0-6 222: 59a ad 1939 302d 224:
302e-f 226: 1d16d 228: 5ae 18a9 df7-8 302b 230: 300-14 3d-44 6 a-c 50-2 7 b 63-f 483-7 592-5 7-9
c-a1 8-9 b-c f c4 610-7 53-4 7-b d-e d6-c f-e2 4 7-8 b-c 730 2-3 5-6 a d f-41 3 5 7 9-a eb-f1 3
816-9 b-23 5-7 9-d 98 c-f ca-e d4-e1 4-5 7-8 a-c f3-5 7-8 b-f 951 3-4 fe f82-3 6-7 135d-f 7dd 93a
a17 75-c b0-4 b-c c1-2 5-9 b-e b6b d-73 cd0-2 a-b e0 f4 8-9 dc0-1 3-9 b-c d1-f5 b e 20d0-1 4-7 b-c
e1 7 9 f0 cef-f1 de0-ff a66f 74-d 9e-f f0-1 8e0-f1 ab0 2-3 7-8 e-f c1 fe20-6 e-f 10376-a a0f 38 e5
d24-7 eab-c f48-a c 82 4 1100-2 366-c 70-4 45e 6b30-6 d185-9 aa-d 242-4 e000-6 8-18 b-21 3-4 6-a 8f
130-6 2ae ec-f 4ef 944-9 232: 315 a 58 1df6 302c 1e4ec-d 233: 35c f 62 1dfc 234: 35d-e 60-1 1dcd
240: 345
"

/-- Starters whose compatibility decomposition ends in more marks than the canonical one, behind the
number of them. -/
def markedText : String := "
1: a8 f b4 8 1c4-6 2d8-d 37a 84 1fbd f-c0 fd-e 2017 3e 309b-c 26e-7e 304 7 10 e 21 32 b 40 b e
fba4-5 b0-1 c5b-d 90 d9 d3c-d e49-c 70-2 4 6-f 81-c f5-a fe3 1f213 2: 385 f77 9 1fc1 d-f dd-f ed-e
fc5e-63 f2-4
"

/-- Starters whose compatibility decomposition is one mark or one letter that continues a Hangul
syllable. -/
def halfMarks : CodePoints := CodePoints.ofString "
3133 5-6 a-f 4f-63 ff9e-f a3 5-6 a-f c2-7 a-f d2-7 a-c
"

/-- The words of a table with the code points they are about; `size` tells how many these are. -/
def placedWords (size : String → Nat) (text : String) : List (Nat × String) :=
  let read := (tableWords text).foldl (fun (entries, next) word =>
    let (code, word) :=
      match word.splitOn "=" with
      | [code, word] => (hexNumber code, word)
      | _ => (next, word)
    ((code, word) :: entries, code + size word)) ([], 0)
  read.1.reverse

def decompositionList : List (Nat × List Nat) :=
  let mappings := (placedWords (fun _ => 1) decompositionText).foldl (fun (entries, before) entry =>
    let parts := (entry.2.splitOn "+").mapIdx fun i digits =>
      if digits.isEmpty then before.getD i 0 else hexNumber digits
    ((entry.1, parts) :: entries, parts)) ([], [])
  let ideographs := (placedWords String.length ideographText).flatMap fun (first, run) =>
    run.toList.mapIdx fun i c => (first + i, [c.toNat])
  mappings.1.reverse ++ ideographs

def decompositions : Std.HashMap Nat (List Nat) :=
  Std.HashMap.ofList decompositionList

/-- Reads a table of numbers by code point, in which the number stands before its code points. -/
def numbersOfString (text : String) : Std.HashMap Nat Nat :=
  let read := (tableWords text).foldl (fun (table, value, before) word =>
    match word.splitOn ":" with
    | [number, _] => (table, number.toNat?.getD 0, "")
    | _ =>
      let ((lo, hi), last) := CodePoints.rangeOfString before word
      ((List.range (hi + 1 - lo)).foldl (fun t i => t.insert (lo + i) value) table, value, last))
    (∅, 0, "")
  read.1

/-- Every code point of a nonzero combining class with its class. -/
def combiningClasses : Std.HashMap Nat Nat := numbersOfString combiningText

/-- The numbers of `markedText`. -/
def marked : Std.HashMap Nat Nat := numbersOfString markedText

/-- The combining class; characters that start a cluster have class zero. -/
def combiningClass (code : Nat) : Nat := combiningClasses.getD code 0

/-- The pairs that compose and their composites: two starters or a starter and a mark whose
composite is itself a starter and not excluded. -/
def compositionList : List ((Nat × Nat) × Nat) :=
  decompositionList.filterMap fun entry =>
    match entry with
    | (code, [a, b]) =>
      if excluded.contains code || combiningClass code ≠ 0 || combiningClass a ≠ 0 then none
      else some ((a, b), code)
    | _ => none

/-- The lower sixteen bits of a code point. -/
def lowHalf (code : Nat) : Nat := code % 0x10000

/-- The composites by the lower halves of the two code points of a pair; no two pairs have the same
halves. -/
def compositions : Std.HashMap (Nat × Nat) Nat :=
  Std.HashMap.ofList (compositionList.map fun ((a, b), code) => ((lowHalf a, lowHalf b), code))

/-- The code points that compose with something before them, Hangul apart. -/
def backward : Std.HashMap Nat Unit :=
  Std.HashMap.ofList (compositionList.map fun ((_, b), _) => (b, ()))

end Jasm.Text.Normal
